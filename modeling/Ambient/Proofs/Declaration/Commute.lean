import Ambient.Proofs.Declaration.Account

/-!
# Statements that do not depend on each other

All that a statement reads of a model is under which names classes are registered, and of which
kinds they are. A statement that declares no class leaves that alone, so two such statements can be
exchanged.

* `Slot`, `Model.contents`: the lists of a model, and what stands in each;
* `contents_classify`, `mem_paths_classify`: what a step adds to the lists and to the paths;
* `Model.Alike`: the same classes are registered; `Alike.outcome_eq`, `Alike.recorded?_eq`,
  `Alike.located?_eq`: so a statement does the same;
* `alike_classify`: what a statement that declares no class leaves alone;
* **`classify_comm`**: two statements in either order.
-/

namespace Ambient.Declaration

open Ambient.Script (Statement)

variable {filter : Name.Filter} {m : Model} {s : Statement}

/-! ## Lists and what stands in them -/

/-- The kinds of declarations. -/
inductive EntryKind
  | variable
  | typeAlias
  | enumeration
  | function
  | classEntry
  deriving DecidableEq, Repr

/-- The kind of a declaration. -/
def Entry.kind : Entry → EntryKind
  | .class _ => .classEntry
  | .function _ => .function
  | .enumeration _ => .enumeration
  | .typeAlias _ => .typeAlias
  | .variable _ => .variable

/-- A list of declarations in a model: those of a kind in the namespace at a path, or in the class
at a position there. -/
structure Slot where
  path : String
  owner : Option ℕ
  kind : EntryKind
  deriving DecidableEq, Repr

/-- The list that a declaration stands in. -/
def Listing.slot (d : Listing) : Slot := ⟨d.path, d.owner, d.entry.kind⟩

/-- The members of a kind that a class has. -/
def ClassEntry.members (c : ClassEntry) : EntryKind → List Entry
  | .variable => c.properties.map .variable
  | .function => c.methods.map .function
  | _ => []

/-- What stands in a list of a namespace. Classes stand there without their members, which have
lists of their own. -/
def Namespace.contents (ns : Namespace) : Option ℕ → EntryKind → List Entry
  | none, .variable => ns.vars.map .variable
  | none, .typeAlias => ns.typeAliases.map .typeAlias
  | none, .enumeration => ns.enums.map .enumeration
  | none, .function => ns.functions.map .function
  | none, .classEntry => ns.classes.map fun c => .class c.bare
  | some i, kind => (ns.classes[i]?).elim [] fun c => c.members kind

/-- What stands in a list of a model. -/
def Model.contents (m : Model) (slot : Slot) : List Entry :=
  ((m.get? slot.path).getD .empty).contents slot.owner slot.kind

/-- What comes into a list with a declaration, if there is one. -/
def Slot.gained (slot : Slot) : Option Listing → List Entry
  | some d => if d.slot = slot then [d.entry] else []
  | none => []

/-- A class that gains a member: that comes at the end of one list of the class, and every other
list stays. -/
theorem Namespace.contents_of_member {ns : Namespace} {before after : List ClassEntry}
    {c d : ClassEntry} {entry : Entry} (hclasses : ns.classes = before ++ c :: after)
    (hmembers : ∀ kind, d.members kind =
      c.members kind ++ if entry.kind = kind then [entry] else [])
    (hbare : d.bare = c.bare)
    (position : Option ℕ) (kind : EntryKind) :
    ({ ns with classes := before ++ d :: after } : Namespace).contents position kind =
      ns.contents position kind ++
        if some before.length = position ∧ entry.kind = kind then [entry] else [] := by
  cases position with
  | none => cases kind <;> simp [contents, hclasses, hbare]
  | some i =>
    have hset : before ++ d :: after = ns.classes.set before.length d := by simp [hclasses]
    simp only [contents, hset, List.getElem?_set, Option.some.injEq]
    by_cases hi : before.length = i
    · subst hi
      simp [hclasses, hmembers]
    · simp [hi]

/-- **What a namespace gains** comes at the end of one list. -/
theorem Namespace.Gains.contents_eq {ns ns' : Namespace} {owner : Option String} {entry : Entry}
    (h : ns.Gains owner entry ns') (hns : ns.Registered) (position : Option ℕ) (kind : EntryKind) :
    ns'.contents position kind = ns.contents position kind ++
      if entry.classIn ns owner = position ∧ entry.kind = kind then [entry] else [] := by
  cases h with
  | «variable» v => cases position <;> cases kind <;> simp [contents, Entry.classIn, Entry.kind]
  | function f => cases position <;> cases kind <;> simp [contents, Entry.classIn, Entry.kind]
  | typeAlias _ a => cases position <;> cases kind <;> simp [contents, Entry.classIn, Entry.kind]
  | enumeration _ e => cases position <;> cases kind <;> simp [contents, Entry.classIn, Entry.kind]
  | «class» _ c hmethods hproperties =>
    have hbare := ClassEntry.bare_of_nil hmethods hproperties
    cases position with
    | none => cases kind <;> simp [contents, Entry.classIn, Entry.kind, hbare]
    | some i =>
      have hmembers : c.members kind = [] := by
        cases kind <;> simp [ClassEntry.members, hmethods, hproperties]
      simp only [contents, Entry.classIn, reduceCtorEq, false_and, if_false, List.append_nil]
      rcases Nat.lt_trichotomy i ns.classes.length with hi | hi | hi
      · rw [List.getElem?_append_left hi]
      · subst hi
        simp [hmembers]
      · rw [List.getElem?_eq_none (by simp; omega), List.getElem?_eq_none (by omega)]
  | @method _ _ _ c f _ hc =>
    have hmembers : ∀ kind, ClassEntry.members { c with methods := c.methods ++ [f] } kind =
        c.members kind ++ if (Entry.function f).kind = kind then [.function f] else [] := by
      intro kind
      cases kind <;> simp [ClassEntry.members, Entry.kind]
    rw [Entry.classIn, Option.bind_some, hns.lookup_eq hc]
    exact contents_of_member hc.classes_eq hmembers rfl position kind
  | @property _ _ _ c v _ hc =>
    have hmembers : ∀ kind, ClassEntry.members { c with properties := c.properties ++ [v] } kind =
        c.members kind ++ if (Entry.variable v).kind = kind then [.variable v] else [] := by
      intro kind
      cases kind <;> simp [ClassEntry.members, Entry.kind]
    rw [Entry.classIn, Option.bind_some, hns.lookup_eq hc]
    exact contents_of_member hc.classes_eq hmembers rfl position kind

/-! ## What a step adds -/

theorem Model.contents_update_self (m : Model) (path : String) (f : Namespace → Namespace)
    (position : Option ℕ) (kind : EntryKind) : (m.update path f).contents ⟨path, position, kind⟩ =
      (f ((m.get? path).getD .empty)).contents position kind := by
  rw [contents, get?_update_self, Option.getD_some]

theorem Model.contents_update_of_ne {slot : Slot} {path : String} (h : slot.path ≠ path) (m : Model)
    (f : Namespace → Namespace) : (m.update path f).contents slot = m.contents slot := by
  rw [contents, get?_update_of_ne h, contents]

/-- **A step** adds to one list what the statement records, at its end. -/
theorem contents_classify (hm : m.Each Namespace.Registered) (s : Statement) (slot : Slot) :
    (classify filter m s).2.contents slot =
      m.contents slot ++ slot.gained (recorded? filter m s) := by
  rcases hc : classify filter m s with ⟨o, next⟩
  cases step_of_classify hc with
  | skipped | unreadable =>
    rw [recorded?_eq_none (by rw [hc]; rfl), Slot.gained, List.append_nil]
  | refused sub place refusal =>
    rw [recorded?_eq_none (by rw [hc]; rfl), Slot.gained, List.append_nil, Model.withNamespace]
    by_cases hp : slot.path = place.path
    · rw [← hp]
      exact Model.contents_update_self m slot.path id slot.owner slot.kind
    · exact Model.contents_update_of_ne hp m id
  | recorded sub place entry hsub hplace hentry =>
    rw [recorded?_eq_some hsub hplace hentry, Slot.gained, Model.record]
    by_cases hp : slot.path = place.path
    · obtain ⟨path, position, kind⟩ := slot
      subst hp
      have hgains := gains_at_place hm hplace hentry
      rw [Model.contents_update_self,
        hgains.contents_eq (hm.getD Namespace.registered_empty place.path)]
      simp [Model.contents, Listing.slot]
    · rw [Model.contents_update_of_ne hp, if_neg fun h => hp (congrArg Slot.path h).symm,
        List.append_nil]

/-- The path of the namespace that a statement finds or creates. -/
def located? (filter : Name.Filter) (m : Model) (s : Statement) : Option String :=
  match subject filter s with
  | .error _ => none
  | .ok sub =>
    match placement m sub with
    | .error _ => none
    | .ok place => some place.path

theorem paths_classify (filter : Name.Filter) (m : Model) (s : Statement) :
    (classify filter m s).2.paths = match located? filter m s with
      | some path => if path ∈ m.paths then m.paths else m.paths ++ [path]
      | none => m.paths := by
  unfold classify located?
  cases subject filter s with
  | error o => rfl
  | ok sub =>
    dsimp only
    cases placement m sub with
    | error reason => rfl
    | ok place =>
      dsimp only
      cases entryOf sub.role sub.name place.isStatic s sub.doc sub.comment with
      | error refusal => exact Model.paths_update m place.path id
      | ok entry => exact Model.paths_update m place.path _

/-- A step lists the path of the statement's namespace. -/
theorem mem_paths_classify {path : String} : path ∈ (classify filter m s).2.paths ↔
    path ∈ m.paths ∨ located? filter m s = some path := by
  rw [paths_classify]
  cases located? filter m s with
  | none => simp
  | some p =>
    dsimp only
    split_ifs with h
    · refine ⟨Or.inl, fun hpath => hpath.elim id fun hp => ?_⟩
      exact Option.some.inj hp ▸ h
    · simp [eq_comm]

theorem paths_prefix_classify (filter : Name.Filter) (m : Model) (s : Statement) :
    m.paths <+: (classify filter m s).2.paths := by
  rw [paths_classify]
  split
  · split_ifs
    · exact List.prefix_rfl
    · exact List.prefix_append _ _
  · exact List.prefix_rfl

/-! ## What a statement reads -/

/-- Classes are registered under the same names and are of the same kinds. -/
structure Namespace.Alike (a b : Namespace) : Prop where
  register_eq : a.register = b.register
  kinds_eq : a.classes.map ClassEntry.kind = b.classes.map ClassEntry.kind

theorem Namespace.Alike.refl (ns : Namespace) : ns.Alike ns := ⟨rfl, rfl⟩

theorem Namespace.Alike.trans {a b c : Namespace} (hab : a.Alike b) (hbc : b.Alike c) :
    a.Alike c :=
  ⟨hab.register_eq.trans hbc.register_eq, hab.kinds_eq.trans hbc.kinds_eq⟩

theorem Namespace.Alike.kind_eq {a b : Namespace} (h : a.Alike b) (name : String) :
    (a.findClass? name).map ClassEntry.kind = (b.findClass? name).map ClassEntry.kind := by
  rw [findClass?, findClass?, h.register_eq, Option.map_bind, Option.map_bind]
  congr 1
  funext i
  rw [Function.comp, Function.comp, ← List.getElem?_map, ← List.getElem?_map, h.kinds_eq]

/-- The same classes are registered in every namespace. -/
def Model.Alike (a b : Model) : Prop :=
  ∀ path, ((a.get? path).getD .empty).Alike ((b.get? path).getD .empty)

namespace Model.Alike

variable {a b : Model}

theorem refl (m : Model) : m.Alike m := fun _ => .refl _

theorem trans {c : Model} (hab : a.Alike b) (hbc : b.Alike c) : a.Alike c :=
  fun path => (hab path).trans (hbc path)

theorem kind_eq (h : a.Alike b) (path name : String) :
    (a.findClass? path name).map ClassEntry.kind =
      (b.findClass? path name).map ClassEntry.kind := by
  rw [findClass?_eq, findClass?_eq, (h path).kind_eq]

theorem isSome_eq (h : a.Alike b) (path name : String) :
    (a.findClass? path name).isSome = (b.findClass? path name).isSome := by
  rw [← Option.isSome_map, h.kind_eq, Option.isSome_map]

theorem isStaticMember_eq (h : a.Alike b) (path : List String) :
    a.isStaticMember path = b.isStaticMember path := by
  unfold isStaticMember
  cases path.getLast? with
  | none => rfl
  | some name =>
    have hkind := h.kind_eq (Text.dotted path.dropLast) name
    dsimp only
    cases ha : a.findClass? (Text.dotted path.dropLast) name with
    | none =>
      rw [ha, Option.map_none, eq_comm, Option.map_eq_none_iff] at hkind
      rw [hkind]
    | some c =>
      rw [ha, Option.map_some, eq_comm, Option.map_eq_some_iff] at hkind
      obtain ⟨d, hd, hdkind⟩ := hkind
      simp only [hd, hdkind]

theorem placement_eq (h : a.Alike b) (sub : Subject) : placement a sub = placement b sub := by
  simp only [placement, placeIn, h.isStaticMember_eq, h.isSome_eq]

/-- A statement has the same outcome. -/
theorem outcome_eq (h : a.Alike b) (filter : Name.Filter) (s : Statement) :
    (classify filter a s).1 = (classify filter b s).1 :=
  outcome_of_placement filter s h.placement_eq

/-- A statement records the same declaration in the same list. -/
theorem recorded?_eq (h : a.Alike b) (filter : Name.Filter) (s : Statement) :
    recorded? filter a s = recorded? filter b s := by
  unfold recorded?
  cases subject filter s with
  | error o => rfl
  | ok sub =>
    simp only [h.placement_eq, Entry.classIn, (h _).register_eq]

/-- A statement finds or creates the same namespace. -/
theorem located?_eq (h : a.Alike b) (filter : Name.Filter) (s : Statement) :
    located? filter a s = located? filter b s := by
  simp only [located?, h.placement_eq]

theorem update (m : Model) (path : String) {f : Namespace → Namespace}
    (hf : ∀ ns : Namespace, ns.Alike (f ns)) : m.Alike (m.update path f) := by
  intro other
  by_cases hp : other = path
  · subst hp
    rw [get?_update_self, Option.getD_some]
    exact hf _
  · rw [get?_update_of_ne hp]
    exact .refl _

end Model.Alike

/-! ## Statements that declare no class -/

/-- The documentation of a statement speaks of no class: it has neither of the two tags for one. -/
def DeclaresNoClass (s : Statement) : Prop :=
  ∀ c, s.documentation? = some c →
    (documentation c.value).has ["constructor", "interface"] = false

instance (s : Statement) : Decidable (DeclaresNoClass s) :=
  match h : s.documentation? with
  | some c => decidable_of_iff ((documentation c.value).has ["constructor", "interface"] = false)
      (by simp [DeclaresNoClass, h])
  | none => .isTrue (by simp [DeclaresNoClass, h])

/-- Without a tag for a class, a statement has the role of no class. -/
theorem role_ne_type {doc : Doc.DocComment} (h : doc.has ["constructor", "interface"] = false)
    (kind : ClassKind) : Role.of doc ≠ .type kind := by
  rw [Doc.DocComment.has_cons, Bool.or_eq_false_iff] at h
  unfold Role.of
  rw [h.1, h.2]
  split_ifs <;> simp_all

/-- Recording anything but a class leaves the classes alike. -/
theorem Namespace.alike_record (ns : Namespace) (owner : Option String) {entry : Entry}
    (h : ∀ c, entry ≠ .class c) : ns.Alike (ns.record owner entry) := by
  have hmember : ∀ (n : String) (f : ClassEntry → ClassEntry), (∀ c, (f c).kind = c.kind) →
      ns.Alike (ns.updateClass n f) := by
    intro n f hf
    unfold updateClass
    split
    · rename_i i hi
      refine ⟨rfl, List.ext_getElem? fun j => ?_⟩
      simp only [List.getElem?_map, List.getElem?_modify]
      cases ns.classes[j]? with
      | none => rfl
      | some c => by_cases hj : i = j <;> simp [hj, hf]
    · exact .refl ns
  cases entry with
  | «class» c => exact absurd rfl (h c)
  | enumeration e => exact ⟨rfl, rfl⟩
  | typeAlias a => exact ⟨rfl, rfl⟩
  | function f =>
    cases owner with
    | none => exact ⟨rfl, rfl⟩
    | some n => exact hmember n _ fun _ => rfl
  | «variable» v =>
    cases owner with
    | none => exact ⟨rfl, rfl⟩
    | some n => exact hmember n _ fun _ => rfl

/-- **A step without a class** leaves the classes alike, whatever its outcome is. -/
theorem alike_classify (filter : Name.Filter) (m : Model) (hs : DeclaresNoClass s) :
    m.Alike (classify filter m s).2 := by
  rcases hc : classify filter m s with ⟨o, next⟩
  cases step_of_classify hc with
  | skipped | unreadable => exact .refl m
  | refused sub place => exact .update m place.path fun ns => .refl ns
  | recorded sub place entry hsub hplace hentry =>
    refine .update m place.path fun ns => ns.alike_record place.owner fun c hclass => ?_
    have hscreened := screened_of_subject hsub
    obtain ⟨comment, hcomment, hvalue⟩ := hscreened.documented
    have hdoc := hs comment hcomment
    rw [← hvalue, ← hscreened.doc_eq] at hdoc
    subst hclass
    cases built_of_entryOf hentry with
    | «class» _ hrole => exact role_ne_type hdoc _ (hscreened.role_eq.symm.trans hrole)

/-! ## Either order -/

/-- What two statements, one after the other, add to a list. -/
theorem contents_classify_classify (hm : m.Each Namespace.Registered) {s t : Statement}
    (hs : DeclaresNoClass s) (slot : Slot) :
    (classify filter (classify filter m s).2 t).2.contents slot = m.contents slot ++
      (slot.gained (recorded? filter m s) ++ slot.gained (recorded? filter m t)) := by
  rw [contents_classify (registered_classify filter hm s), contents_classify hm,
    ← (alike_classify filter m hs).recorded?_eq filter t, List.append_assoc]

theorem mem_paths_classify_classify {s t : Statement} (hs : DeclaresNoClass s) (path : String) :
    path ∈ (classify filter (classify filter m s).2 t).2.paths ↔
      path ∈ m.paths ∨ located? filter m s = some path ∨ located? filter m t = some path := by
  rw [mem_paths_classify, mem_paths_classify, or_assoc,
    ← (alike_classify filter m hs).located?_eq filter t]

/-- Two declarations that come into a list come there one each. -/
theorem Slot.gained_cases (slot : Slot) (a b : Option Listing) :
    slot.gained a ++ slot.gained b = slot.gained b ++ slot.gained a ∨
      ∃ d e, a = some d ∧ b = some e ∧ d.slot = slot ∧ e.slot = slot := by
  have hone : ∀ a : Option Listing, slot.gained a = [] ∨ ∃ d, a = some d ∧ d.slot = slot := by
    intro a
    cases a with
    | none => exact Or.inl rfl
    | some d =>
      by_cases hd : d.slot = slot
      · exact Or.inr ⟨d, rfl, hd⟩
      · exact Or.inl (if_neg hd)
  rcases hone a with ha | ⟨d, hd, hdslot⟩
  · rw [ha, List.append_nil, List.nil_append]
    exact Or.inl rfl
  rcases hone b with hb | ⟨e, he, heslot⟩
  · rw [hb, List.append_nil, List.nil_append]
    exact Or.inl rfl
  · exact Or.inr ⟨d, e, hd, he, hdslot, heslot⟩

/-- **Two statements that declare no class** can be exchanged after every run. In either order each
has the outcome that it has alone, the same classes stay registered, and the same namespaces are
there, those of the run first. Every list has the same contents in both orders, unless both
statements add to it: then it has what it had, and after that the two new declarations, which are
exchanged. -/
theorem classify_comm (filter : Name.Filter) (statements : List Statement) {s t : Statement}
    (hs : DeclaresNoClass s) (ht : DeclaresNoClass t) :
    let m := Model.empty.after filter statements
    let afterS := classify filter m s
    let afterT := classify filter m t
    let afterST := classify filter afterS.2 t
    let afterTS := classify filter afterT.2 s
    afterTS.1 = afterS.1 ∧ afterST.1 = afterT.1 ∧
      m.Alike afterST.2 ∧ m.Alike afterTS.2 ∧
      afterST.2.paths.Perm afterTS.2.paths ∧
      m.paths <+: afterST.2.paths ∧ m.paths <+: afterTS.2.paths ∧
      ∀ slot, afterST.2.contents slot = afterTS.2.contents slot ∨
        ∃ d e, recorded? filter m s = some d ∧ recorded? filter m t = some e ∧
          d.slot = slot ∧ e.slot = slot ∧
          afterST.2.contents slot = m.contents slot ++ [d.entry, e.entry] ∧
          afterTS.2.contents slot = m.contents slot ++ [e.entry, d.entry] := by
  intro m afterS afterT afterST afterTS
  have hm : m.Each Namespace.Registered := registered_after filter statements
  have hpaths : m.paths.Nodup := nodup_paths_after filter statements
  have hS : m.Alike afterS.2 := alike_classify filter m hs
  have hT : m.Alike afterT.2 := alike_classify filter m ht
  refine ⟨(hT.outcome_eq filter s).symm, (hS.outcome_eq filter t).symm,
    hS.trans (alike_classify filter _ ht), hT.trans (alike_classify filter _ hs), ?_,
    (paths_prefix_classify filter m s).trans (paths_prefix_classify filter _ t),
    (paths_prefix_classify filter m t).trans (paths_prefix_classify filter _ s), fun slot => ?_⟩
  · refine (List.perm_ext_iff_of_nodup ?_ ?_).mpr fun path => ?_
    · exact nodup_paths_classify (nodup_paths_classify hpaths s) t
    · exact nodup_paths_classify (nodup_paths_classify hpaths t) s
    · rw [mem_paths_classify_classify hs, mem_paths_classify_classify ht]
      exact or_congr_right or_comm
  · rw [contents_classify_classify hm hs, contents_classify_classify hm ht]
    rcases slot.gained_cases (recorded? filter m s) (recorded? filter m t) with
      h | ⟨d, e, hd, he, hdslot, heslot⟩
    · exact Or.inl (congrArg _ h)
    · refine Or.inr ⟨d, e, hd, he, hdslot, heslot, ?_, ?_⟩
      · rw [hd, he, Slot.gained, Slot.gained, if_pos hdslot, if_pos heslot]
        rfl
      · rw [hd, he, Slot.gained, Slot.gained, if_pos hdslot, if_pos heslot]
        rfl

/-- A class, and two constants that become static members of it. -/
private def classBox : Statement := documented "* @constructor " (assignment "goog" ["Box"])

private def constantLid : Statement := documented "* @const " (assignment "goog" ["Box", "lid"])

private def constantKey : Statement := documented "* @const " (assignment "goog" ["Box", "key"])

/-- The two members are exchanged in the list of properties of the class. -/
theorem classify_comm_members :
    let m := Model.empty.after .standard [classBox]
    let afterST := classify .standard (classify .standard m constantLid).2 constantKey
    let afterTS := classify .standard (classify .standard m constantKey).2 constantLid
    let slot : Slot := ⟨"goog", some 0, .variable⟩
    DeclaresNoClass constantLid ∧ DeclaresNoClass constantKey ∧
      (afterST.2.contents slot).map Entry.name = ["lid", "key"] ∧
      (afterTS.2.contents slot).map Entry.name = ["key", "lid"] ∧
      ∃ d e, recorded? .standard m constantLid = some d ∧
        recorded? .standard m constantKey = some e ∧ d.slot = slot ∧ e.slot = slot ∧
        afterST.2.contents slot = m.contents slot ++ [d.entry, e.entry] ∧
        afterTS.2.contents slot = m.contents slot ++ [e.entry, d.entry] := by
  intro m afterST afterTS slot
  have hlid : DeclaresNoClass constantLid := by decide +kernel
  have hkey : DeclaresNoClass constantKey := by decide +kernel
  have hST : (afterST.2.contents slot).map Entry.name = ["lid", "key"] := by decide +kernel
  have hTS : (afterTS.2.contents slot).map Entry.name = ["key", "lid"] := by decide +kernel
  obtain ⟨-, -, -, -, -, -, -, hslots⟩ := classify_comm .standard [classBox] hlid hkey
  refine ⟨hlid, hkey, hST, hTS, (hslots slot).resolve_left fun hsame => ?_⟩
  have hnames := hST.symm.trans ((congrArg (List.map Entry.name) hsame).trans hTS)
  exact absurd hnames (by decide)

end Ambient.Declaration
