import Ambient.Proofs.TypeExpr.Atom

/-!
# The layout of a declared type

Where a type stands decides on the parentheses of its text and on nothing else. So its atoms can be
told from the tree alone: those of its parts, with signs between and around them.

* `indexKey`, `atomsAt`: the atoms of a type at a place;
* `HasAtoms`, `hasAtoms_functionType` and the like: the atoms of a text that is put together;
* `hasIndexKey_of_fits`: what is written for the type of an index;
* `EachShown`, `PlainKeys`: records whose keys are words;
* **`laidOut_of_fits`**: the atoms of the text of a type.
-/

namespace Ambient.TypeExpr

/-! ## Atoms -/

namespace Atom

/-- The atom of a text that is one word. -/
def ofWord (s : String) : Atom := .word s.toList

/-- Atoms in brackets. -/
def between (opening closing : Char) (as : List Atom) : List Atom :=
  .sign opening :: (as ++ [.sign closing])

/-- Atoms in parentheses, if they are asked for. -/
def inParens (wanted : Bool) (as : List Atom) : List Atom :=
  if wanted then between '(' ')' as else as

/-- Lists of atoms with a sign between each two. -/
def joined (c : Char) (lists : List (List Atom)) : List Atom := [Atom.sign c].intercalate lists

/-- A name with its type arguments. -/
def applied (name : String) (arguments : List (List Atom)) : List Atom :=
  ofWord name :: between '<' '>' (joined ',' arguments)

/-- A name by itself: a container is given its arguments. -/
def named (n : String) : List Atom :=
  if Name.arity n = 0 then [ofWord (Name.renameType n)]
  else applied (Name.renameType n) (List.replicate (Name.arity n) [ofWord "any"])

/-- A named part of a function type or of a record. -/
def pair (name : String) (as : List Atom) : List Atom := ofWord name :: .sign ':' :: as

/-- An index signature. -/
def indexed (key : String) (as : List Atom) : List Atom :=
  between '\x7b' '\x7d' (between '[' ']' (pair "index" [ofWord key]) ++ .sign ':' :: as)

/-- A function type. -/
def arrowed (params : List (List Atom)) (result : List Atom) : List Atom :=
  between '(' ')' (joined ',' params) ++ .arrow :: result

end Atom

open Atom

/-- The type of an index: a number if its type is that, and text otherwise. -/
def indexKey : TypeExpr → String
  | .name n => if n = "number" then n else "string"
  | .optional t | .nullable _ t | .nonNullable _ t => indexKey t
  | .union [t] => indexKey t
  | _ => "string"

/-- The index signature that `Object` with these arguments stands for, from their atoms. -/
def indexAtoms : List TypeExpr → List (List Atom) → List Atom
  | [_], [value] => indexed "string" value
  | [key, _], [_, value] => indexed (indexKey key) value
  | _, _ => []

/-- The atoms of the result of a function type, given those it has if it is there. -/
def resultAtoms (result : TypeExpr) (as : List Atom) : List Atom :=
  match result with
  | .absent => [ofWord "void"]
  | _ => as

theorem resultAtoms_of_ne {result : TypeExpr} (h : result ≠ .absent) (as : List Atom) :
    resultAtoms result as = as := by
  cases result with
  | absent => exact absurd rfl h
  | _ => rfl

mutual

/-- The atoms of a type, in parentheses where its text is. -/
def atomsAt (inUnion inVariadic : Bool) : TypeExpr → List Atom
  | .absent | .all | .unknown => [ofWord "any"]
  | .void | .null | .undefined => [ofWord "void"]
  | .name n => named n
  | .optional t | .nullable _ t | .nonNullable _ t => atomsAt inUnion inVariadic t
  | .union members => inParens inVariadic (joined '|' (atomsOfEach true members))
  | .variadic (.tuple [item]) => atomsAt false true item ++ [.sign '[', .sign ']']
  | .variadic t => atomsAt false true t ++ [.sign '[', .sign ']']
  | .application (.name base) arguments =>
    if base = Name.objectType then indexAtoms arguments (atomsOfEach false arguments)
    else if Name.isUnparameterized base then [ofWord (Name.renameType base)]
    else applied (Name.renameType base) (atomsOfEach false arguments ++
      List.replicate (Name.arity (Name.renameType base) - arguments.length) [ofWord "any"])
  | .function params result _ _ =>
    inParens inUnion (arrowed (atomsOfParams 0 params)
      (resultAtoms result (atomsAt false false result)))
  | .record fields => between '\x7b' '\x7d' (joined ';' (atomsOfFields fields))
  | .tuple _ | .application _ _ | .field _ _ => []

/-- The atoms of several types, each by itself or as a member of a union. -/
def atomsOfEach (inUnion : Bool) : List TypeExpr → List (List Atom)
  | [] => []
  | t :: ts => atomsAt inUnion false t :: atomsOfEach inUnion ts

/-- The atoms of the parameters of a function type. -/
def atomsOfParams (index : ℕ) : List TypeExpr → List (List Atom)
  | [] => []
  | t :: ts =>
    pair (parameterName ("arg" ++ toString index) t) (atomsAt false false t) ::
      atomsOfParams (index + 1) ts

/-- The atoms of the members of a record. -/
def atomsOfFields : List TypeExpr → List (List Atom)
  | .field key t :: ts => pair key (atomsAt false false t) :: atomsOfFields ts
  | _ => []

end

/-! ## Texts -/

/-- A text that is not empty, and its atoms. -/
def HasAtoms (s : String) (as : List Atom) : Prop := s.toList ≠ [] ∧ Scans s.toList as

variable {s : String} {as : List Atom} {texts : List String} {lists : List (List Atom)}

theorem hasAtoms_word (h : IsWord s.toList) : HasAtoms s [ofWord s] := ⟨h.1, scans_word h⟩

theorem hasAtoms_any : HasAtoms "any" [ofWord "any"] := hasAtoms_word (by decide)

theorem hasAtoms_void : HasAtoms "void" [ofWord "void"] := hasAtoms_word (by decide)

theorem scans_between {opening closing : Char} {letters : List Char}
    (hopening : isSign opening = true ∧ opening ≠ '=')
    (hclosing : isSign closing = true ∧ closing ≠ '=') (h : Scans letters as) :
    Scans (opening :: (letters ++ [closing])) (between opening closing as) :=
  (h.append (scans_nil.sign hclosing.1 hclosing.2) (not_isWordPart_of_isSign hclosing.1)).sign
    hopening.1 hopening.2

theorem hasAtoms_parenthesize (wanted : Bool) (h : HasAtoms s as) :
    HasAtoms (parenthesize wanted s) (inParens wanted as) := by
  cases wanted with
  | false => exact h
  | true =>
    have htext : ("(" ++ s ++ ")").toList = '(' :: (s.toList ++ [')']) := by simp
    rw [HasAtoms, parenthesize, if_pos rfl, htext]
    exact ⟨List.cons_ne_nil _ _, scans_between (by decide) (by decide) h.2⟩

theorem scans_intercalate {c : Char} {sep : String} (hc : isSign c = true ∧ c ≠ '=')
    (hsep : sep.toList = [c] ∨ sep.toList = [c, ' ']) (h : List.Forall₂ HasAtoms texts lists) :
    Scans (String.intercalate sep texts).toList (joined c lists) := by
  rw [String.toList_intercalate]
  refine scans_join hc.1 hc.2 hsep ?_
  rw [List.forall₂_map_left_iff]
  exact h.imp fun _ _ h => h.2

theorem hasAtoms_withArguments {base : String} (hbase : IsWord base.toList)
    (h : List.Forall₂ HasAtoms texts lists) :
    HasAtoms (withArguments base texts) (applied base lists) := by
  have htext : (withArguments base texts).toList =
      base.toList ++ '<' :: ((String.intercalate ", " texts).toList ++ ['>']) := by
    simp [withArguments]
  have hall : Scans (String.intercalate ", " texts).toList (joined ',' lists) :=
    scans_intercalate (by decide) (Or.inr rfl) h
  rw [HasAtoms, htext]
  refine ⟨List.append_ne_nil_of_left_ne_nil hbase.1 _, ?_⟩
  exact (scans_word hbase).append (scans_between (by decide) (by decide) hall) rfl

theorem hasAtoms_pair {name : String} (hname : IsWord name.toList) (h : HasAtoms s as) :
    HasAtoms (name ++ ": " ++ s) (pair name as) := by
  have htext : (name ++ ": " ++ s).toList = name.toList ++ ':' :: ' ' :: s.toList := by simp
  rw [HasAtoms, htext]
  refine ⟨List.append_ne_nil_of_left_ne_nil hname.1 _, ?_⟩
  exact (scans_word hname).append (h.2.blank.sign (by decide) (by decide)) rfl

theorem hasAtoms_indexText {index : String} (h : HasAtoms s as) :
    HasAtoms (indexText index s)
      (indexed (if Name.isIndexType index then index else "string") as) := by
  have hkey : IsWord (if Name.isIndexType index then index else "string").toList := by
    split
    · rename_i hindex
      rw [Name.isIndexType, Bool.or_eq_true, beq_iff_eq, beq_iff_eq] at hindex
      rcases hindex with rfl | rfl <;> decide
    · decide
  rw [indexText]
  generalize (if Name.isIndexType index then index else "string") = key at hkey
  have hpair : Scans ("index" ++ ": " ++ key).toList (pair "index" [ofWord key]) :=
    (hasAtoms_pair (by decide) (hasAtoms_word hkey)).2
  have hbrackets : Scans ('[' :: (("index" ++ ": " ++ key).toList ++ [']']))
      (between '[' ']' (pair "index" [ofWord key])) :=
    scans_between (by decide) (by decide) hpair
  have hinside := hbrackets.append (h.2.blank.sign (c := ':') (by decide) (by decide)) rfl
  have htext : ("\x7b[index: " ++ key ++ "]: " ++ s ++ "\x7d").toList =
      '\x7b' :: (('[' :: (("index" ++ ": " ++ key).toList ++ [']'])) ++ ':' :: ' ' :: s.toList ++
        ['\x7d']) := by
    simp
  rw [HasAtoms, htext]
  exact ⟨List.cons_ne_nil _ _, scans_between (by decide) (by decide) hinside⟩

/-- A function type, with the pairs of its parameters. -/
theorem hasAtoms_functionType {params : List (String × String)} {result : String}
    (hparams : List.Forall₂ (fun p as => HasAtoms (p.1 ++ ": " ++ p.2) as) params lists)
    (hresult : HasAtoms (resultText result) as) (inUnion : Bool) :
    HasAtoms (functionType inUnion params result) (inParens inUnion (arrowed lists as)) := by
  have hlist : Scans (String.intercalate ", " (params.map fun p => p.1 ++ ": " ++ p.2)).toList
      (joined ',' lists) := by
    refine scans_intercalate (by decide) (Or.inr rfl) ?_
    rwa [List.forall₂_map_left_iff]
  have hfront : Scans ('(' :: ((String.intercalate ", " (params.map fun p =>
      p.1 ++ ": " ++ p.2)).toList ++ [')'])) (between '(' ')' (joined ',' lists)) :=
    scans_between (by decide) (by decide) hlist
  have hall := hfront.append hresult.2.blank.arrow.blank rfl
  have htext : (parameterList params ++ " => " ++ resultText result).toList =
      '(' :: ((String.intercalate ", " (params.map fun p => p.1 ++ ": " ++ p.2)).toList ++ [')']) ++
        ' ' :: '=' :: '>' :: ' ' :: (resultText result).toList := by
    simp [parameterList]
  refine hasAtoms_parenthesize inUnion ?_
  rw [HasAtoms, htext]
  exact ⟨List.append_ne_nil_of_left_ne_nil (List.cons_ne_nil _ _) _, hall⟩

/-! ## What a text is made of -/

theorem atomsAt_variadic (inUnion inVariadic : Bool) (t : TypeExpr) :
    atomsAt inUnion inVariadic (.variadic t) =
      atomsAt false true t.operand ++ [.sign '[', .sign ']'] := by
  rcases operand_cases t with ⟨item, rfl⟩ | ht
  · rw [atomsAt, operand]
  · rw [ht, atomsAt]
    exact ne_tuple_of_operand ht

/-- The text of a function type comes from those of its parameters and its result. -/
theorem exists_functionType {place : Place} {params : List TypeExpr}
    {result thisType newType : TypeExpr}
    (h : declaredAt place (.function params result thisType newType) = .ok s) :
    ∃ ps r, paramsFrom 0 params = .ok ps ∧
      (result = .absent ∧ r = "" ∨ result ≠ .absent ∧ declaredAt .alone result = .ok r) ∧
      s = functionType place.inUnion ps r := by
  rw [declaredAt] at h
  obtain ⟨ps, hps, h⟩ := bind_eq_ok.mp h
  dsimp only at h
  split at h
  · cases h
    exact ⟨ps, "", hps, Or.inl ⟨rfl, rfl⟩, rfl⟩
  · rename_i hresult
    obtain ⟨r, hr, h⟩ := bind_eq_ok.mp h
    cases h
    exact ⟨ps, r, hps, Or.inr ⟨hresult, hr⟩, rfl⟩

theorem eachAt_cons {place : Place} {t : TypeExpr} {ts : List TypeExpr}
    (h : eachAt place (t :: ts) = .ok texts) :
    ∃ text later, declaredAt place t = .ok text ∧ eachAt place ts = .ok later ∧
      texts = text :: later := by
  rw [eachAt] at h
  obtain ⟨text, htext, h⟩ := bind_eq_ok.mp h
  obtain ⟨later, hlater, h⟩ := bind_eq_ok.mp h
  cases h
  exact ⟨text, later, htext, hlater, rfl⟩

/-! ## The key of an index -/

theorem isIndexType_of_isSign {c : Char} (hmem : c ∈ s.toList) (hc : isSign c = true) :
    Name.isIndexType s = false := by
  by_contra h
  rw [Bool.not_eq_false, Name.isIndexType, Bool.or_eq_true, beq_iff_eq, beq_iff_eq] at h
  have hword : IsWord s.toList := by
    rcases h with rfl | rfl <;> decide
  have hpart : isWordPart c = true := hword.2 c hmem
  rw [not_isWordPart_of_isSign hc] at hpart
  cases hpart

theorem mem_withArguments (base : String) (texts : List String) :
    '<' ∈ (withArguments base texts).toList := by
  simp [withArguments]

theorem nameText_of_not_base (n : String) : nameText false n =
    if Name.arity n = 0 then Name.renameType n
    else withArguments (Name.renameType n) (List.replicate (Name.arity n) "any") := by
  rw [nameText]
  by_cases h : Name.arity n = 0 <;> simp [h]

/-- The text of a type, where it is the type of an index. -/
def HasIndexKey (t : TypeExpr) : Prop :=
  ∀ inUnion s, declaredAt ⟨inUnion, false, false⟩ t = .ok s →
    (if Name.isIndexType s then s else "string") = indexKey t

theorem hasIndexKey_of_isSign {t : TypeExpr} (hkey : indexKey t = "string")
    (h : ∀ inUnion s, declaredAt ⟨inUnion, false, false⟩ t = .ok s →
      ∃ c ∈ s.toList, isSign c = true) : HasIndexKey t := by
  intro inUnion s hs
  obtain ⟨c, hmem, hc⟩ := h inUnion s hs
  rw [isIndexType_of_isSign hmem hc, hkey]
  rfl

theorem hasIndexKey_name (n : String) : HasIndexKey (.name n) := by
  intro inUnion s hs
  have htext : s = nameText false n := by
    rw [declaredAt] at hs
    exact (Except.ok.inj hs).symm
  have hnumber : Name.renameType n = "number" ↔ n = "number" := Name.renameType_eq_iff (by decide)
  rw [htext, nameText_of_not_base, indexKey]
  by_cases harity : Name.arity n = 0
  · rw [if_pos harity]
    by_cases hn : n = "number"
    · rw [if_pos hn, hnumber.mpr hn, hn]
      rfl
    · rw [if_neg hn, Name.isIndexType, beq_eq_false_iff_ne.mpr (hnumber.not.mpr hn),
        Bool.or_false]
      split
      · rename_i hstring
        exact beq_iff_eq.mp hstring
      · rfl
  · have hn : n ≠ "number" := by
      rintro rfl
      exact harity (by decide)
    rw [if_neg harity, if_neg hn, isIndexType_of_isSign (mem_withArguments _ _) (by decide)]
    rfl

theorem hasIndexKey_application (base : String) (arguments : List TypeExpr) :
    HasIndexKey (.application (.name base) arguments) := by
  intro inUnion s hs
  rw [declaredAt, declaredAt_base, ok_bind] at hs
  have hindex : Name.isIndexType s = false := by
    split_ifs at hs with hobject hlength hunparameterized
    · obtain ⟨texts, -, hs⟩ := bind_eq_ok.mp hs
      rw [indexSignatureText.eq_def] at hs
      have hopen : ∀ index value, '\x7b' ∈ (indexText index value).toList := by simp [indexText]
      split at hs
      · cases hs
        exact isIndexType_of_isSign (hopen _ _) (by decide)
      · cases hs
        exact isIndexType_of_isSign (hopen _ _) (by decide)
      · cases hs
    · cases hs
      rw [Name.isUnparameterized, Bool.or_eq_true, beq_iff_eq, beq_iff_eq] at hunparameterized
      rcases hunparameterized with h | h <;> rw [h] <;> decide
    · obtain ⟨texts, -, hs⟩ := bind_eq_ok.mp hs
      cases hs
      exact isIndexType_of_isSign (mem_withArguments _ _) (by decide)
  rw [hindex]
  rfl

theorem hasIndexKey_union {members : List TypeExpr} (h : ∀ t ∈ members, HasIndexKey t) :
    HasIndexKey (.union members) := by
  intro inUnion s hs
  rw [declaredAt] at hs
  obtain ⟨texts, htexts, hs⟩ := bind_eq_ok.mp hs
  cases hs
  cases members with
  | nil =>
    cases htexts
    rfl
  | cons t later =>
    obtain ⟨text, others, htext, hothers, rfl⟩ := eachAt_cons htexts
    cases later with
    | nil =>
      cases hothers
      have hone : parenthesize false (String.intercalate "|" [text]) = text := by
        simp [parenthesize]
      rw [hone]
      exact h t List.mem_cons_self true text htext
    | cons next later =>
      obtain ⟨second, others, -, -, rfl⟩ := eachAt_cons hothers
      have hbar : '|' ∈
          (parenthesize false (String.intercalate "|" (text :: second :: others))).toList := by
        simp [parenthesize]
      rw [isIndexType_of_isSign hbar (by decide)]
      rfl

/-- **The key of an index** as it is written. -/
theorem hasIndexKey_of_fits {site : Site} {t : TypeExpr} (h : Fits site t) :
    AtSite HasIndexKey site t := by
  have hword : ∀ {t : TypeExpr} {word : String}, (∀ place, declaredAt place t = .ok word) →
      Name.isIndexType word = false → indexKey t = "string" → HasIndexKey t := by
    intro t word htext hword hkey inUnion s hs
    rw [htext] at hs
    cases hs
    rw [hword, hkey]
    rfl
  refine fits_induction ?absent ?name ?all ?unknown ?void ?null ?undefined ?optional ?nullable
    ?nonNullable ?union ?tuple ?application ?function ?record ?variadic h
  case absent | all | unknown | void | null | undefined =>
    exact hword (fun place => by rw [declaredAt]) (by decide) rfl
  case name => exact fun n _ => hasIndexKey_name n
  case optional =>
    intro t _ ih inUnion s hs
    rw [declaredAt] at hs
    exact ih inUnion s hs
  case nullable | nonNullable =>
    intro _ t _ ih inUnion s hs
    rw [declaredAt] at hs
    exact ih inUnion s hs
  case union => exact fun members _ _ ih => hasIndexKey_union ih
  case tuple =>
    intro items inUnion s hs
    rw [declaredAt] at hs
    cases hs
  case application => exact fun base arguments _ _ _ => hasIndexKey_application base arguments
  case function =>
    intro params result thisType newType _ _
    refine hasIndexKey_of_isSign rfl fun inUnion s hs => ?_
    obtain ⟨ps, r, -, -, rfl⟩ := exists_functionType hs
    exact ⟨')', by cases inUnion <;> simp [functionType, parenthesize, parameterList], by decide⟩
  case record =>
    intro fields _
    refine hasIndexKey_of_isSign rfl fun inUnion s hs => ?_
    rw [declaredAt] at hs
    obtain ⟨texts, -, hs⟩ := bind_eq_ok.mp hs
    cases hs
    exact ⟨'\x7b', by simp, by decide⟩
  case variadic =>
    intro t _ _
    refine hasIndexKey_of_isSign rfl fun inUnion s hs => ?_
    rw [declaredAt_variadic] at hs
    obtain ⟨text, -, hs⟩ := bind_eq_ok.mp hs
    cases hs
    exact ⟨'[', by simp, by decide⟩

/-! ## Every type -/

/-- A property of each type that shows in a type. -/
def EachShown (P : TypeExpr → Prop) (t : TypeExpr) : Prop := ∀ u, ShownIn u t → P u

theorem EachShown.inside {P : TypeExpr → Prop} {t child : TypeExpr} (h : EachShown P t)
    (hchild : child ∈ t.shown) : EachShown P child := fun u hu => h u (.inside hchild hu)

theorem eachShown_iff {P : TypeExpr → Prop} {t : TypeExpr} :
    EachShown P t ↔ P t ∧ ∀ child ∈ t.shown, EachShown P child := by
  refine ⟨fun h => ⟨h t .self, fun child hchild => h.inside hchild⟩, fun h u hu => ?_⟩
  cases hu with
  | self => exact h.1
  | inside hchild hu => exact h.2 _ hchild u hu

/-- The keys of all records are words. -/
def PlainKeys (t : TypeExpr) : Prop :=
  t.EachShown fun u => ∀ key value, u = .field key value → IsWord key.toList

/-- Wherever a type stands, its text has the atoms of its layout. -/
def LaidOut (t : TypeExpr) : Prop :=
  ∀ inUnion inVariadic s, declaredAt ⟨inUnion, inVariadic, false⟩ t = .ok s →
    HasAtoms s (atomsAt inUnion inVariadic t)

theorem hasAtoms_eachAt (inUnion : Bool) {ts : List TypeExpr} (h : ∀ t ∈ ts, LaidOut t) :
    ∀ {texts : List String}, eachAt ⟨inUnion, false, false⟩ ts = .ok texts →
      List.Forall₂ HasAtoms texts (atomsOfEach inUnion ts) := by
  induction ts with
  | nil =>
    intro texts htexts
    cases htexts
    exact .nil
  | cons t ts ih =>
    intro texts htexts
    rw [List.forall_mem_cons] at h
    obtain ⟨text, later, htext, hlater, rfl⟩ := eachAt_cons htexts
    exact .cons (h.1 inUnion false text htext) (ih h.2 hlater)

theorem hasAtoms_paramsFrom {ts : List TypeExpr} (h : ∀ t ∈ ts, LaidOut t) :
    ∀ {index : ℕ} {params : List (String × String)}, paramsFrom index ts = .ok params →
      List.Forall₂ (fun p as => HasAtoms (p.1 ++ ": " ++ p.2) as) params
        (atomsOfParams index ts) := by
  induction ts with
  | nil =>
    intro index params hparams
    cases hparams
    exact .nil
  | cons t ts ih =>
    intro index params hparams
    rw [List.forall_mem_cons] at h
    rw [paramsFrom] at hparams
    obtain ⟨text, htext, hparams⟩ := bind_eq_ok.mp hparams
    obtain ⟨later, hlater, hparams⟩ := bind_eq_ok.mp hparams
    cases hparams
    refine .cons ?_ (ih h.2 hlater)
    exact hasAtoms_pair (isWord_parameterName index t) (h.1 false false text htext)

theorem hasAtoms_fieldTexts {ts : List TypeExpr}
    (h : ∀ t ∈ ts, ∃ key value, t = .field key value ∧ IsWord key.toList ∧ LaidOut value) :
    ∀ {texts : List String}, fieldTexts ts = .ok texts →
      List.Forall₂ HasAtoms texts (atomsOfFields ts) := by
  induction ts with
  | nil =>
    intro texts htexts
    cases htexts
    exact .nil
  | cons t ts ih =>
    intro texts htexts
    rw [List.forall_mem_cons] at h
    obtain ⟨⟨key, value, rfl, hkey, hvalue⟩, hts⟩ := h
    rw [fieldTexts] at htexts
    obtain ⟨text, htext, htexts⟩ := bind_eq_ok.mp htexts
    obtain ⟨later, hlater, htexts⟩ := bind_eq_ok.mp htexts
    cases htexts
    exact .cons (hasAtoms_pair hkey (hvalue false false text htext)) (ih hts hlater)

theorem laidOut_word {t : TypeExpr} {word : String} (hword : HasAtoms word [ofWord word])
    (htext : ∀ place, declaredAt place t = .ok word)
    (hatoms : ∀ inUnion inVariadic, atomsAt inUnion inVariadic t = [ofWord word]) : LaidOut t := by
  intro inUnion inVariadic s hs
  rw [htext] at hs
  cases hs
  rwa [hatoms]

theorem forall₂_replicate {α β : Type} {R : α → β → Prop} {a : α} {b : β} (h : R a b) (n : ℕ) :
    List.Forall₂ R (List.replicate n a) (List.replicate n b) := by
  induction n with
  | zero => exact .nil
  | succ n ih => exact .cons h ih

theorem laidOut_name {n : String} (hn : IsName n.toList) : LaidOut (.name n) := by
  intro inUnion inVariadic s hs
  rw [declaredAt] at hs
  cases hs
  rw [nameText_of_not_base, atomsAt, named]
  split
  · exact hasAtoms_word (isWord_renameType hn)
  · exact hasAtoms_withArguments (isWord_renameType hn) (forall₂_replicate hasAtoms_any _)

theorem laidOut_union {members : List TypeExpr} (hne : members ≠ [])
    (h : ∀ t ∈ members, LaidOut t) : LaidOut (.union members) := by
  intro inUnion inVariadic s hs
  rw [declaredAt] at hs
  obtain ⟨texts, htexts, hs⟩ := bind_eq_ok.mp hs
  cases hs
  have hall := hasAtoms_eachAt true h htexts
  rw [atomsAt]
  refine hasAtoms_parenthesize inVariadic ⟨?_, scans_intercalate (by decide) (Or.inl rfl) hall⟩
  -- The text of the first member is not empty.
  obtain ⟨t, later, rfl⟩ := List.exists_cons_of_ne_nil hne
  obtain ⟨text, others, htext, -, rfl⟩ := eachAt_cons htexts
  have hfirst := (h t List.mem_cons_self true false text htext).1
  rw [String.toList_intercalate, List.map_cons]
  cases others with
  | nil => rwa [List.map_nil, List.intercalate_singleton]
  | cons next others =>
    rw [List.map_cons, List.intercalate_cons_cons]
    exact List.append_ne_nil_of_left_ne_nil (List.append_ne_nil_of_left_ne_nil hfirst _) _

theorem laidOut_signature {arguments : List TypeExpr} (hkeys : ∀ t ∈ arguments, HasIndexKey t)
    (h : ∀ t ∈ arguments, LaidOut t) {texts : List String} {s : String}
    (htexts : eachAt .alone arguments = .ok texts) (hs : indexSignatureText texts = .ok s) :
    HasAtoms s (indexAtoms arguments (atomsOfEach false arguments)) := by
  have hall := hasAtoms_eachAt false h htexts
  rw [indexSignatureText.eq_def] at hs
  split at hs
  · rename_i value
    cases hs
    obtain ⟨t, rfl⟩ := List.length_eq_one_iff.mp (length_of_eachAt htexts).symm
    cases hall with
    | cons hvalue _ => exact hasAtoms_indexText hvalue
  · rename_i index value
    cases hs
    obtain ⟨key, t, rfl⟩ := List.length_eq_two.mp (length_of_eachAt htexts).symm
    obtain ⟨_, _, hindex, -, htexts⟩ := eachAt_cons htexts
    cases htexts
    have hkey : (if Name.isIndexType index then index else "string") = indexKey key :=
      hkeys key List.mem_cons_self false index hindex
    cases hall with
    | cons _ hlater =>
      cases hlater with
      | cons hvalue _ =>
        have hatoms : HasAtoms (indexText index value) (indexed _ _) := hasAtoms_indexText hvalue
        rwa [hkey] at hatoms
  · cases hs

theorem laidOut_application {base : String} {arguments : List TypeExpr}
    (hbase : IsName base.toList) (hkeys : ∀ t ∈ arguments, HasIndexKey t)
    (h : Name.isUnparameterized base = false → ∀ t ∈ arguments, LaidOut t) :
    LaidOut (.application (.name base) arguments) := by
  intro inUnion inVariadic s hs
  have hobject : Name.renameType base = Name.objectType ↔ base = Name.objectType :=
    Name.renameType_eq_iff (by decide)
  have hword := isWord_renameType hbase
  rw [declaredAt, declaredAt_base, ok_bind, Name.isUnparameterized_renameType] at hs
  rw [atomsAt]
  by_cases hname : base = Name.objectType
  · rw [if_pos (hobject.mpr hname)] at hs
    rw [if_pos hname]
    split_ifs at hs
    obtain ⟨texts, htexts, hs⟩ := bind_eq_ok.mp hs
    exact laidOut_signature hkeys (h (hname ▸ rfl)) htexts hs
  · rw [if_neg (hobject.not.mpr hname)] at hs
    rw [if_neg hname]
    split_ifs at hs ⊢ with hparameterized
    · cases hs
      exact hasAtoms_word hword
    · obtain ⟨texts, htexts, hs⟩ := bind_eq_ok.mp hs
      cases hs
      have hall := hasAtoms_eachAt false (h (Bool.eq_false_iff.mpr hparameterized)) htexts
      rw [length_of_eachAt htexts]
      exact hasAtoms_withArguments hword (List.rel_append hall (forall₂_replicate hasAtoms_any _))

theorem laidOut_function {params : List TypeExpr} {result thisType newType : TypeExpr}
    (hparams : ∀ t ∈ params, LaidOut t) (hresult : LaidOut result) :
    LaidOut (.function params result thisType newType) := by
  intro inUnion inVariadic s hs
  obtain ⟨ps, r, hps, hr, rfl⟩ := exists_functionType hs
  rw [atomsAt]
  refine hasAtoms_functionType (hasAtoms_paramsFrom hparams hps) ?_ inUnion
  rcases hr with ⟨rfl, rfl⟩ | ⟨hne, hr⟩
  · exact hasAtoms_void
  · have hatoms : HasAtoms r (atomsAt false false result) := hresult false false r hr
    have hsome : resultText r = r := by
      rw [resultText, if_neg]
      rw [String.isEmpty_iff]
      exact mt String.toList_eq_nil_iff.mpr hatoms.1
    rwa [hsome, resultAtoms_of_ne hne]

theorem laidOut_record {fields : List TypeExpr}
    (h : ∀ t ∈ fields, ∃ key value, t = .field key value ∧ IsWord key.toList ∧ LaidOut value) :
    LaidOut (.record fields) := by
  intro inUnion inVariadic s hs
  rw [declaredAt] at hs
  obtain ⟨texts, htexts, hs⟩ := bind_eq_ok.mp hs
  cases hs
  have hall : Scans (String.intercalate "; " texts).toList (joined ';' (atomsOfFields fields)) :=
    scans_intercalate (by decide) (Or.inr rfl) (hasAtoms_fieldTexts h htexts)
  have htext : ("\x7b" ++ String.intercalate "; " texts ++ "\x7d").toList =
      '\x7b' :: ((String.intercalate "; " texts).toList ++ ['\x7d']) := by
    simp
  rw [atomsAt, HasAtoms, htext]
  exact ⟨List.cons_ne_nil _ _, scans_between (by decide) (by decide) hall⟩

theorem laidOut_variadic {t : TypeExpr} (h : LaidOut t.operand) : LaidOut (.variadic t) := by
  intro inUnion inVariadic s hs
  rw [declaredAt_variadic] at hs
  obtain ⟨text, htext, hs⟩ := bind_eq_ok.mp hs
  cases hs
  obtain ⟨hne, hatoms⟩ : HasAtoms text (atomsAt false true t.operand) := h false true text htext
  have hbrackets : Scans ['[', ']'] [.sign '[', .sign ']'] :=
    (scans_nil.sign (by decide) (by decide)).sign (by decide) (by decide)
  rw [atomsAt_variadic, HasAtoms, String.toList_append]
  exact ⟨List.append_ne_nil_of_left_ne_nil hne _, hatoms.append hbrackets rfl⟩

/-- **The text of a type** has the atoms of its layout, if the keys in it are words. -/
theorem laidOut_of_fits {site : Site} {t : TypeExpr} (h : Fits site t) :
    AtSite (fun t => t.PlainKeys → t.LaidOut) site t := by
  refine fits_induction ?absent ?name ?all ?unknown ?void ?null ?undefined ?optional ?nullable
    ?nonNullable ?union ?tuple ?application ?function ?record ?variadic h
  case absent | all | unknown =>
    exact fun _ => laidOut_word hasAtoms_any (fun place => by rw [declaredAt]) fun _ _ => by
      rw [atomsAt]
  case void | null | undefined =>
    exact fun _ => laidOut_word hasAtoms_void (fun place => by rw [declaredAt]) fun _ _ => by
      rw [atomsAt]
  case name => exact fun n hn _ => laidOut_name hn
  case optional =>
    intro t _ ih hplain inUnion inVariadic s hs
    rw [declaredAt] at hs
    rw [atomsAt]
    exact ih (hplain.inside List.mem_cons_self) inUnion inVariadic s hs
  case nullable | nonNullable =>
    intro _ t _ ih hplain inUnion inVariadic s hs
    rw [declaredAt] at hs
    rw [atomsAt]
    exact ih (hplain.inside List.mem_cons_self) inUnion inVariadic s hs
  case union =>
    exact fun members hne _ ih hplain => laidOut_union hne fun t ht => ih t ht (hplain.inside ht)
  case tuple =>
    intro items _ inUnion inVariadic s hs
    rw [declaredAt] at hs
    cases hs
  case application =>
    intro base arguments hbase hfits ih hplain
    refine laidOut_application hbase (fun t ht => (hasIndexKey_of_fits (hfits t ht)).1) ?_
    intro hparameterized t ht
    refine ih t ht (hplain.inside ?_)
    rw [shown, if_neg (by simp [hparameterized])]
    exact ht
  case function =>
    intro params result thisType newType ihparams ihresult hplain
    refine laidOut_function (fun t ht => ihparams t ht (hplain.inside ?_))
      (ihresult (hplain.inside ?_))
    · exact List.mem_append_left _ ht
    · exact List.mem_append_right _ List.mem_cons_self
  case record =>
    intro fields ih hplain
    refine laidOut_record fun t ht => ?_
    obtain ⟨key, value, rfl, hvalue⟩ := ih t ht
    have hfield := hplain.inside ht
    exact ⟨key, value, rfl, hfield _ .self key value rfl, hvalue (hfield.inside List.mem_cons_self)⟩
  case variadic =>
    intro t _ ih hplain
    refine laidOut_variadic (ih (hplain.inside ?_))
    rw [shown_variadic]
    exact List.mem_cons_self

end Ambient.TypeExpr
