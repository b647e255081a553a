import Ambient.Proofs.Declaration.Account
import Ambient.Proofs.Name.Reserved

/-!
# Declared names and references to them

A type is declared under its last segment, in the block of the namespace that the other segments
name. The head of the block marks reserved segments, as a reference does; the line that declares the
type gives its name as it is. The two spellings of the whole name agree unless the last segment is
reserved.

* `Entry.IsType`, `DeclaresType`, `ShowsType`: declarations of types, and the lines that show them;
* `path_of_isType`: a type stands in the namespace its name is below;
* `exists_line_of_mem_entries`: a declared type has its line;
* **`declared_as_referred`**: when the declared name is the one that references have;
* `default_not_as_referred`: a class whose name is a reserved word.
-/

namespace Ambient.Declaration

open Ambient.Doc (DocComment)
open Ambient.Script (Statement)

variable {filter : Name.Filter} {m : Model} {s : Statement}

/-! ## Declarations of types -/

/-- A declaration that types refer to by its name. -/
inductive Entry.IsType : Entry → Prop
  | class (c : ClassEntry) : IsType (.class c)
  | enumeration (e : Enumeration) : IsType (.enumeration e)
  | typeAlias (a : TypeAlias) : IsType (.typeAlias a)

theorem namesType_of_find? {doc : DocComment} {title : String} {tag : Doc.Tag}
    (htitle : title ∈ ["typedef", "enum"]) (h : doc.find? title = some tag) :
    namesType doc = true := by
  rw [namesType, DocComment.has, List.any_eq_true]
  have htag : tag.title = title := by simpa using List.find?_some h
  exact ⟨tag, List.mem_of_find?_eq_some h, List.contains_iff_mem.mpr (htag ▸ htitle)⟩

theorem declaresType_of_isType {sub : Subject} {isStatic : Bool} {entry : Entry}
    (hentry : entryOf sub.role sub.name isStatic s sub.doc sub.comment = .ok entry)
    (htype : entry.IsType) : sub.declaresType = true := by
  rw [Subject.declaresType]
  cases built_of_entryOf hentry with
  | «class» c hrole => rw [hrole, Bool.true_or]
  | enumeration e tag _ _ htag =>
    rw [namesType_of_find? (by decide) htag, Bool.or_true]
  | typeAlias a tag _ _ _ htag =>
    rw [namesType_of_find? (by decide) htag, Bool.or_true]
  | function => cases htype
  | «variable» => cases htype

/-- A type is no member of a class: unless its name is below a prototype, it stands in the namespace
that its name is below. -/
theorem path_of_isType {sub : Subject} {place : Placement} {entry : Entry}
    (hplace : placement m sub = .ok place)
    (hentry : entryOf sub.role sub.name place.isStatic s sub.doc sub.comment = .ok entry)
    (htype : entry.IsType) (hproto : prototypeSegment ∉ sub.path) :
    place.path = Text.dotted sub.path := by
  cases placed_of_placement hplace with
  | onInstances above hpath =>
    rw [hpath] at hproto
    exact absurd (List.mem_append_right _ List.mem_cons_self) hproto
  | onClass _ _ _ _ _ _ _ hvalue =>
    exact absurd ((declaresType_of_isType hentry htype).symm.trans hvalue) Bool.noConfusion
  | inNamespace => rfl

/-! ## What is recorded -/

theorem exists_of_recorded? {d : Listing} (h : recorded? filter m s = some d) :
    ∃ sub place entry, subject filter s = .ok sub ∧ placement m sub = .ok place ∧
      entryOf sub.role sub.name place.isStatic s sub.doc sub.comment = .ok entry ∧
      d = ⟨place.path, entry.classIn ((m.get? place.path).getD .empty) place.owner, entry⟩ := by
  unfold recorded? at h
  split at h
  · cases h
  rename_i sub hsub
  split at h
  · cases h
  rename_i place hplace
  split at h
  · cases h
  rename_i entry hentry
  exact ⟨sub, place, entry, hsub, hplace, hentry, (Option.some.inj h).symm⟩

/-- What a statement records is among what a run through it records. -/
theorem mem_recorded {before after : List Statement} {d : Listing} : ∀ {m : Model},
    recorded? filter (m.after filter before) s = some d →
      d ∈ m.recorded filter (before ++ s :: after) := by
  induction before with
  | nil =>
    intro m h
    rw [Model.after_nil] at h
    rw [List.nil_append, Model.recorded, h]
    exact List.mem_cons_self
  | cons t before ih =>
    intro m h
    rw [List.cons_append, Model.recorded]
    exact List.mem_append_right _ (ih h)

/-- What is recorded on the way is listed in the namespace it has been put in, at the end. -/
theorem exists_namespace_of_recorded {before : List Statement} (after : List Statement)
    {d : Listing} (h : recorded? filter (Model.empty.after filter before) s = some d) :
    ∃ ns, (d.path, ns) ∈ (Model.empty.after filter (before ++ s :: after)).namespaces ∧
      (d.owner, d.entry) ∈ ns.entries := by
  have hperm := listed_after filter (before ++ s :: after) .empty Model.each_empty
  have hd := hperm.mem_iff.mpr (List.mem_append_left _ (mem_recorded h))
  rw [Model.listed, List.mem_flatMap] at hd
  obtain ⟨⟨path, ns⟩, hns, hd⟩ := hd
  obtain rfl := Namespace.path_of_mem_listings hd
  refine ⟨ns, hns, ?_⟩
  obtain ⟨e, he, heq⟩ := List.mem_map.mp hd
  rw [← heq]
  exact he

/-! ## Lines that declare types -/

/-- The words that declarations of types begin with. -/
def typeWords : List String := ["class", "interface", "enum", "import", "type"]

/-- A line of a block declares a type under a name: the name stands after one of the words for it,
up to a blank or the parameters of the type. -/
def DeclaresType (name line : String) : Prop :=
  ∃ word ∈ typeWords, ∃ rest, line = lineAt 1 (word ++ " " ++ name ++ rest) ∧
    (rest.toList.head? = some ' ' ∨ rest.toList.head? = some '<')

/-- The lines of a block that is headed by the name of a module declare a type under a name. -/
def ShowsType (header name : String) (lines : List String) : Prop :=
  ∃ before line after, DeclaresType name line ∧
    lines = ("declare module " ++ header ++ " \x7b") :: (before ++ line :: after)

theorem declaresType_class (c : ClassEntry) : DeclaresType c.name (lineAt 1 c.header) := by
  have hword : c.kind.word ∈ typeWords := by cases c.kind <;> decide
  refine ⟨c.kind.word, hword, templateText c.templates ++
    ((if c.parents.isEmpty then "" else " extends " ++ String.intercalate ", " c.extended) ++
      " \x7b"), congrArg _ ?_, ?_⟩
  · simp only [ClassEntry.header, String.append_assoc]
  · by_cases htemplates : c.templates = []
    · refine Or.inl ?_
      rw [htemplates]
      split_ifs <;> simp [templateText]
    · refine Or.inr ?_
      rw [templateText, if_neg (by simpa using htemplates)]
      simp

theorem declaresType_typeAlias (a : TypeAlias) :
    DeclaresType a.name (lineAt 1 ("type " ++ a.name ++ " = " ++ a.type ++ ";")) := by
  refine ⟨"type", by decide, " = " ++ (a.type ++ ";"), congrArg _ ?_, Or.inl (by simp)⟩
  simp only [← String.append_assoc]
  rfl

theorem declaresType_enumeration (e : Enumeration) : DeclaresType e.name (lineAt 1 e.text) := by
  have hmembers : DeclaresType e.name
      (lineAt 1 ("enum " ++ e.name ++ " \x7b " ++ String.intercalate ", " e.keys ++ " \x7d")) := by
    refine ⟨"enum", by decide, " \x7b " ++ (String.intercalate ", " e.keys ++ " \x7d"),
      congrArg _ ?_, Or.inl (by simp)⟩
    simp only [← String.append_assoc]
    rfl
  rw [Enumeration.text]
  split
  · rename_i other _
    split_ifs
    · refine ⟨"import", by decide, " = " ++ (Name.renameReserved other ++ ";"), congrArg _ ?_,
        Or.inl (by simp)⟩
      simp only [← String.append_assoc]
      rfl
    · exact hmembers
  · exact hmembers

/-- The declaration that a piece shows. -/
def Piece.entry? : Piece → Option Entry
  | .variable v | .property v => some (.variable v)
  | .typeAlias a => some (.typeAlias a)
  | .enumeration e => some (.enumeration e)
  | .function f | .method f => some (.function f)
  | .opening c => some (.class c)
  | .constructor _ | .closing => none

theorem exists_piece_of_mem_shown {e : Option ℕ × Entry} {pieces : List Piece} :
    ∀ {inside : Option ℕ} {next : ℕ}, e ∈ shown inside next pieces →
      ∃ piece ∈ pieces, piece.entry? = some e.2 := by
  induction pieces with
  | nil => intro inside next h; cases h
  | cons piece rest ih =>
    intro inside next h
    have hlater : ∀ {inside : Option ℕ} {next : ℕ}, e ∈ shown inside next rest →
        ∃ p ∈ piece :: rest, p.entry? = some e.2 := fun h => by
      obtain ⟨p, hp, he⟩ := ih h
      exact ⟨p, List.mem_cons_of_mem _ hp, he⟩
    cases piece with
    | constructor signature => exact hlater h
    | closing => exact hlater h
    | _ =>
      rw [shown] at h
      rcases List.mem_cons.mp h with rfl | h
      · exact ⟨_, List.mem_cons_self, rfl⟩
      · exact hlater h

/-- A type that stands in a namespace has a line that declares it. -/
theorem exists_line_of_mem_entries {ns : Namespace} {e : Option ℕ × Entry} (he : e ∈ ns.entries)
    (htype : e.2.IsType) (emit : Bool) :
    ∃ line ∈ ns.pieces.flatMap (Piece.lines emit), DeclaresType e.2.name line := by
  rw [← Namespace.shown_pieces] at he
  obtain ⟨piece, hpiece, hentry⟩ := exists_piece_of_mem_shown he
  have hlast : ∀ {comment : Option String} {line : String},
      line ∈ commented emit 1 comment [line] :=
    List.mem_append_right _ List.mem_cons_self
  obtain ⟨line, hline, hdeclares⟩ :
      ∃ line ∈ piece.lines emit, DeclaresType e.2.name line := by
    cases piece with
    | opening c =>
      rw [← Option.some.inj hentry]
      exact ⟨_, hlast, declaresType_class c⟩
    | typeAlias a =>
      rw [← Option.some.inj hentry]
      exact ⟨_, hlast, declaresType_typeAlias a⟩
    | enumeration en =>
      rw [← Option.some.inj hentry]
      exact ⟨_, hlast, declaresType_enumeration en⟩
    | constructor | closing => cases hentry
    | «variable» | property | function | method =>
      rw [← Option.some.inj hentry] at htype
      cases htype
  exact ⟨line, List.mem_flatMap.mpr ⟨piece, hpiece, hline⟩, hdeclares⟩

/-! ## References -/

/-- A reference to a type is its name, with arguments if it is a container. -/
theorem declared_name (n : String) :
    ∃ arguments, (arguments = "" ∨ ∃ list, arguments = "<" ++ list ++ ">") ∧
      (TypeExpr.name n).declared = .ok (Name.renameType n ++ arguments) := by
  rw [TypeExpr.declared, TypeExpr.declaredAt, nameText]
  split_ifs
  · refine ⟨_, Or.inr ⟨String.intercalate ", " (List.replicate (Name.arity n) "any"), rfl⟩, ?_⟩
    rw [withArguments]
    simp only [String.append_assoc]
  · exact ⟨"", Or.inl rfl, by rw [String.append_empty]⟩

/-- **Declared names and references.** Whatever follows, a type whose name has a segment above its
last one and is not below a prototype is shown in the block of the namespace that those segments
name. A reference to it marks every reserved segment. The head of the block does so too, but the
line that declares the type does not, so that the declared name is the one of references if and only
if its last segment is not reserved. -/
theorem declared_as_referred {options : PassOptions} {before after : List Statement}
    {whole : Module} {path : List String} {name : String} {d : Listing}
    (hwhole : Module.ofStatements options (before ++ s :: after) = .ok whole)
    (hd : recorded? options.filter (Model.empty.after options.filter before) s = some d)
    (htype : d.entry.IsType) (hname : s.path? = .ok (some (path ++ [name]))) (hpath : path ≠ [])
    (hproto : prototypeSegment ∉ path) :
    let header := Name.renameReserved (Text.dotted path)
    let full := Text.dotted (path ++ [name])
    ∃ ns, (Text.dotted path, ns) ∈ whole.model.namespaces ∧
      (Text.dotted path ≠ "" →
        ∀ emit, ns.render emit (Text.dotted path) ∈ whole.model.blocks emit whole.provides) ∧
      (∀ emit, ShowsType header name (ns.lines emit (Text.dotted path))) ∧
      (∃ arguments, (arguments = "" ∨ ∃ list, arguments = "<" ++ list ++ ">") ∧
        (TypeExpr.name full).declared = .ok (Name.renameType full ++ arguments)) ∧
      Name.renameType full = header ++ "." ++ Name.renameReserved name ∧
      (header ++ "." ++ name = Name.renameType full ↔ Name.Unreserved name) := by
  intro header full
  obtain ⟨ns, hns, hentries⟩ := exists_namespace_of_recorded after hd
  obtain ⟨sub, place, entry, hsub, hplace, hentry, rfl⟩ := exists_of_recorded? hd
  have hsegments := (screened_of_subject hsub).path?_eq
  rw [hname] at hsegments
  obtain ⟨rfl, rfl⟩ := List.append_singleton_inj.mp (Option.some.inj (Except.ok.inj hsegments))
  have hplaced := path_of_isType hplace hentry htype hproto
  have hlocal : entry.name = sub.name := (built_of_entryOf hentry).name_eq
  dsimp only at hns hentries htype
  rw [hplaced] at hns
  have hline : ∀ emit, ∃ line ∈ ns.pieces.flatMap (Piece.lines emit),
      DeclaresType sub.name line := fun emit =>
    hlocal ▸ exists_line_of_mem_entries hentries htype emit
  have hfull : full = Text.dotted sub.path ++ "." ++ sub.name :=
    Name.dotted_append hpath (List.cons_ne_nil _ _)
  have hreferred : Name.renameType full = header ++ "." ++ Name.renameReserved sub.name := by
    rw [hfull, Name.renameType_point]
  refine ⟨ns, ?_, fun hprinted emit => ?_, fun emit => ?_, declared_name full, hreferred, ?_⟩
  · rwa [model_of_ofStatements options hwhole]
  · have hblank : ns.isEmpty = false := by
      rw [← Bool.not_eq_true]
      intro hempty
      have hnone := Namespace.listings_of_isEmpty hempty place.path
      rw [Namespace.listings, List.map_eq_nil_iff] at hnone
      rw [hnone] at hentries
      cases hentries
    rw [model_of_ofStatements options hwhole]
    refine List.mem_append_left _ (List.mem_map.mpr ⟨_, List.mem_filter.mpr ⟨hns, ?_⟩, rfl⟩)
    simp [isPrinted, hprinted, hblank]
  · obtain ⟨line, hmem, hdeclares⟩ := hline emit
    obtain ⟨earlier, later, hsplit⟩ := List.append_of_mem hmem
    refine ⟨earlier, line, later ++ ["\x7d"], hdeclares, ?_⟩
    rw [Namespace.lines_eq, hsplit, List.append_assoc, List.cons_append]
  · rw [hreferred, ← Name.renameReserved_eq_self_iff]
    constructor
    · intro h
      exact (String.append_right_inj (header ++ ".") |>.mp h).symm
    · intro h
      rw [h]

/-- A type alias with an ordinary name. -/
private def aliasId : Statement := documented "* @typedef " (chain "goog" ["a", "Id"])

/-- An alias with an ordinary name is declared under the name that references have. -/
theorem declared_as_referred_alias :
    ∃ whole : Module, Module.ofStatements ⟨.standard, true, none⟩ [aliasId] = .ok whole ∧
      ∃ ns, ("goog.a", ns) ∈ whole.model.namespaces ∧
        (∀ emit, ns.render emit "goog.a" ∈ whole.model.blocks emit whole.provides) ∧
        ShowsType "goog.a" "Id" (ns.lines false "goog.a") ∧
        "goog.a" ++ "." ++ "Id" = Name.renameType "goog.a.Id" := by
  have hrecorded : (recorded? .standard .empty aliasId).any
      (fun d => d.entry matches .typeAlias _) = true := by decide +kernel
  obtain ⟨d, hd, hkind⟩ := (Option.any_eq_true _ _).mp hrecorded
  have htype : d.entry.IsType := by
    cases hentry : d.entry with
    | typeAlias a => exact .typeAlias a
    | _ => rw [hentry] at hkind; cases hkind
  have hpath : aliasId.path? = .ok (some (["goog", "a"] ++ ["Id"])) := by decide +kernel
  have hwhole := ofStatements_continuing .standard none ([] ++ aliasId :: [])
  obtain ⟨ns, hns, hblock, hshows, -, -, hiff⟩ :=
    declared_as_referred hwhole hd htype hpath (by decide) (by decide)
  exact ⟨_, hwhole, ns, hns, hblock (by decide), hshows false, hiff.mpr (by decide)⟩

/-- A class whose name is a reserved word. -/
private def defaultClass : Statement :=
  documented "* @constructor " (.assignment (chain "goog" ["a", "default"]) (.function []))

/-- A class whose name is a reserved word is declared under a name that no reference has. -/
theorem default_not_as_referred :
    ∃ whole : Module, Module.ofStatements ⟨.standard, true, none⟩ [defaultClass] = .ok whole ∧
      whole.render false =
        "declare module goog.a \x7b\n    class default \x7b\n" ++
          "        constructor();\n    \x7d\n\x7d\n" ∧
      (TypeExpr.name "goog.a.default").declared = .ok "goog.a.default_" ∧
      Name.renameType "goog.a.default" ≠ Name.renameReserved "goog.a" ++ "." ++ "default" :=
  ⟨_, ofStatements_continuing .., by decide +kernel, by decide, by decide⟩

end Ambient.Declaration
