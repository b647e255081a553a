import Ambient.Declaration.Printer
import Ambient.Declaration.Classify
import Mathlib.Data.List.Perm.Basic

/-!
# What a text shows

The block of a namespace is a sequence of pieces, each with lines of its own. Read from the start,
the pieces show declarations, and which of them stand inside a class.

* `Piece`, `Block`: the parts of a text;
* `shown`: the declarations that pieces show, each with the class it stands in;
* `Namespace.lines_eq`, **`Model.blocks_eq`**: a text consists of its pieces;
* **`Namespace.shown_pieces`**: the pieces of a namespace show its lists;
* `Model.printed_eq`: printed is what stands in a namespace with a path.
-/

namespace Ambient.Declaration

/-! ## Pieces and their lines -/

/-- A part of the text of a namespace. -/
inductive Piece
  | variable (v : Variable)
  | typeAlias (a : TypeAlias)
  | enumeration (e : Enumeration)
  | function (f : Function)
  /-- The comment and the first line of a class; the class is given without its members. -/
  | opening (c : ClassEntry)
  | constructor (signature : String)
  | property (v : Variable)
  | method (f : Function)
  /-- The last line of a class. -/
  | closing

/-- The lines of a piece. -/
def Piece.lines (emit : Bool) : Piece → List String
  | .variable v => v.lines emit
  | .typeAlias a => a.lines emit
  | .enumeration e => e.lines emit
  | .function f => f.lines emit
  | .opening c => commented emit 1 c.comment [lineAt 1 c.header]
  | .constructor signature => [lineAt 2 ("constructor" ++ signature ++ ";")]
  | .property v => v.memberLines emit
  | .method f => f.memberLines emit
  | .closing => [lineAt 1 "\x7d"]

/-- A class without its members. -/
def ClassEntry.bare (c : ClassEntry) : ClassEntry := { c with methods := [], properties := [] }

/-- The pieces of a class. -/
def ClassEntry.pieces (c : ClassEntry) : List Piece :=
  .opening c.bare :: (c.signature.toList.map .constructor ++ (c.properties.map .property ++
    (c.methods.map .method ++ [.closing])))

/-- The pieces of a namespace. -/
def Namespace.pieces (ns : Namespace) : List Piece :=
  ns.vars.map .variable ++ (ns.typeAliases.map .typeAlias ++ (ns.enums.map .enumeration ++
    (ns.functions.map .function ++ ns.classes.flatMap ClassEntry.pieces)))

theorem ClassEntry.lines_eq (emit : Bool) (c : ClassEntry) :
    c.lines emit = c.pieces.flatMap (Piece.lines emit) := by
  have hconstructor : c.constructorLines =
      (c.signature.toList.map Piece.constructor).flatMap (Piece.lines emit) := by
    rw [constructorLines]
    cases c.signature <;> rfl
  have hheader : c.bare.header = c.header := rfl
  simp only [lines, pieces, hconstructor, List.flatMap_cons, List.flatMap_append, List.flatMap_map,
    List.flatMap_nil, Piece.lines, hheader, commented, List.append_assoc, List.cons_append,
    List.nil_append, List.append_nil]
  rfl

theorem Namespace.lines_eq (emit : Bool) (path : String) (ns : Namespace) :
    ns.lines emit path = ("declare module " ++ Name.renameReserved path ++ " \x7b") ::
      (ns.pieces.flatMap (Piece.lines emit) ++ ["\x7d"]) := by
  have hclasses : ns.classes.flatMap (ClassEntry.lines emit) =
      ns.classes.flatMap fun c => c.pieces.flatMap (Piece.lines emit) :=
    List.flatMap_congr fun c _ => c.lines_eq emit
  simp only [lines, pieces, hclasses, List.flatMap_append, List.flatMap_map, List.flatMap_assoc,
    Piece.lines, List.append_assoc, List.cons_append]

/-! ## What pieces show -/

/-- The declarations that pieces show, each with the number of the class it stands in: the class
that is open now, if one is, and the number that the next class gets. -/
def shown : Option ℕ → ℕ → List Piece → List (Option ℕ × Entry)
  | _, _, [] => []
  | inside, next, piece :: rest =>
    match piece with
    | .variable v => (inside, .variable v) :: shown inside next rest
    | .typeAlias a => (inside, .typeAlias a) :: shown inside next rest
    | .enumeration e => (inside, .enumeration e) :: shown inside next rest
    | .function f => (inside, .function f) :: shown inside next rest
    | .opening c => (inside, .class c) :: shown (some next) (next + 1) rest
    | .constructor _ => shown inside next rest
    | .property v => (inside, .variable v) :: shown inside next rest
    | .method f => (inside, .function f) :: shown inside next rest
    | .closing => shown none next rest

/-- The declarations of a class with its number. -/
def ClassEntry.entriesAt (i : ℕ) (c : ClassEntry) : List (Option ℕ × Entry) :=
  (none, .class c.bare) :: (c.properties.map (fun v => (some i, .variable v)) ++
    c.methods.map fun f => (some i, .function f))

/-- The declarations of classes that are numbered from `i` on. -/
def classEntries : ℕ → List ClassEntry → List (Option ℕ × Entry)
  | _, [] => []
  | i, c :: rest => c.entriesAt i ++ classEntries (i + 1) rest

/-- The declarations of a namespace, each with the position of the class it is a member of. -/
def Namespace.entries (ns : Namespace) : List (Option ℕ × Entry) :=
  ns.vars.map (fun v => (none, .variable v)) ++
    (ns.typeAliases.map (fun a => (none, .typeAlias a)) ++
      (ns.enums.map (fun e => (none, .enumeration e)) ++
        (ns.functions.map (fun f => (none, .function f)) ++ classEntries 0 ns.classes)))

theorem classEntries_append (before after : List ClassEntry) : ∀ i : ℕ,
    classEntries i (before ++ after) =
      classEntries i before ++ classEntries (i + before.length) after := by
  induction before with
  | nil => intro i; simp [classEntries]
  | cons c rest ih =>
    intro i
    rw [List.cons_append, classEntries, classEntries, ih, List.append_assoc, List.length_cons,
      Nat.add_assoc, Nat.add_comm 1]

/-- Pieces that open and close nothing show one declaration each. -/
theorem shown_map {α : Type} {f : α → Piece} {g : α → Entry} {inside : Option ℕ} {next : ℕ}
    (h : ∀ x rest, shown inside next (f x :: rest) = (inside, g x) :: shown inside next rest)
    (rest : List Piece) : ∀ xs : List α, shown inside next (xs.map f ++ rest) =
      xs.map (fun x => (inside, g x)) ++ shown inside next rest
  | [] => rfl
  | x :: xs => by
    rw [List.map_cons, List.cons_append, h, shown_map h rest xs]
    rfl

theorem shown_classPieces (c : ClassEntry) (i : ℕ) (rest : List Piece) :
    shown none i (c.pieces ++ rest) = c.entriesAt i ++ shown none (i + 1) rest := by
  have hconstructor : ∀ later, shown (some i) (i + 1)
      (c.signature.toList.map Piece.constructor ++ later) = shown (some i) (i + 1) later := by
    intro later
    cases c.signature <;> rfl
  have hproperties : ∀ later, shown (some i) (i + 1) (c.properties.map Piece.property ++ later) =
      c.properties.map (fun v => (some i, Entry.variable v)) ++ shown (some i) (i + 1) later :=
    fun later => shown_map (fun _ _ => rfl) later _
  have hmethods : ∀ later, shown (some i) (i + 1) (c.methods.map Piece.method ++ later) =
      c.methods.map (fun f => (some i, Entry.function f)) ++ shown (some i) (i + 1) later :=
    fun later => shown_map (fun _ _ => rfl) later _
  have hclosing : shown (some i) (i + 1) (Piece.closing :: rest) = shown none (i + 1) rest := rfl
  have hopening : ∀ later, shown none i (Piece.opening c.bare :: later) =
      (none, Entry.class c.bare) :: shown (some i) (i + 1) later := fun _ => rfl
  simp only [ClassEntry.pieces, ClassEntry.entriesAt, List.cons_append, List.append_assoc,
    List.nil_append, hopening, hconstructor, hproperties, hmethods, hclosing]

theorem shown_classes : ∀ (classes : List ClassEntry) (i : ℕ),
    shown none i (classes.flatMap ClassEntry.pieces) = classEntries i classes
  | [], _ => rfl
  | c :: rest, i => by
    rw [List.flatMap_cons, shown_classPieces, shown_classes rest, classEntries]

/-- **The pieces of a namespace** show its declarations. -/
theorem Namespace.shown_pieces (ns : Namespace) : shown none 0 ns.pieces = ns.entries := by
  rw [pieces, shown_map (g := Entry.variable) (fun _ _ => rfl),
    shown_map (g := Entry.typeAlias) (fun _ _ => rfl),
    shown_map (g := Entry.enumeration) (fun _ _ => rfl),
    shown_map (g := Entry.function) (fun _ _ => rfl), shown_classes]
  rfl

/-! ## Blocks -/

/-- A declaration and where it stands: in a namespace, and there in the class at a position. -/
structure Listing where
  path : String
  owner : Option ℕ
  entry : Entry

/-- The block of a namespace: its path and the pieces between its first and its last line. -/
structure Block where
  path : String
  pieces : List Piece

/-- The text of a block. -/
def Block.text (emit : Bool) (b : Block) : String :=
  joinLines (("declare module " ++ Name.renameReserved b.path ++ " \x7b") ::
    (b.pieces.flatMap (Piece.lines emit) ++ ["\x7d"]))

/-- What a block shows. -/
def Block.listings (b : Block) : List Listing :=
  (shown none 0 b.pieces).map fun e => ⟨b.path, e.1, e.2⟩

/-- The blocks of the namespaces that are printed. -/
def Model.printedBlocks (m : Model) : List Block :=
  (m.namespaces.filter isPrinted).map fun entry => ⟨entry.1, entry.2.pieces⟩

/-- The declarations that a text shows. -/
def Model.printed (m : Model) : List Listing := m.printedBlocks.flatMap Block.listings

/-- The declarations of a namespace at a path. -/
def Namespace.listings (path : String) (ns : Namespace) : List Listing :=
  ns.entries.map fun e => ⟨path, e.1, e.2⟩

/-- The declarations of a model. -/
def Model.listed (m : Model) : List Listing :=
  m.namespaces.flatMap fun entry => entry.2.listings entry.1

/-- **The text of a model** consists of its blocks and of the names it provides. -/
theorem Model.blocks_eq (emit : Bool) (m : Model) (provides : List String) :
    m.blocks emit provides =
      m.printedBlocks.map (Block.text emit) ++ provides.map renderProvide := by
  rw [blocks, printedBlocks, List.map_map]
  refine congrArg (· ++ _) (List.map_congr_left fun entry _ => ?_)
  rw [Namespace.render, Namespace.lines_eq]
  rfl

theorem Namespace.listings_of_isEmpty {ns : Namespace} (h : ns.isEmpty = true) (path : String) :
    ns.listings path = [] := by
  simp only [isEmpty, Bool.and_eq_true, List.isEmpty_iff] at h
  obtain ⟨⟨⟨⟨hvars, haliases⟩, hfunctions⟩, henums⟩, hclasses⟩ := h
  simp [listings, entries, hvars, haliases, hfunctions, henums, hclasses, classEntries]

theorem Namespace.path_of_mem_listings {ns : Namespace} {path : String} {d : Listing}
    (h : d ∈ ns.listings path) : d.path = path := by
  obtain ⟨e, -, rfl⟩ := List.mem_map.mp h
  rfl

/-- Printed is what stands in a namespace with a path that is not empty. -/
theorem Model.printed_eq (m : Model) : m.printed = m.listed.filter fun d => d.path ≠ "" := by
  have hpath : ∀ (path : String) (ns : Namespace),
      (ns.listings path).filter (fun d => d.path ≠ "") =
        if path = "" then [] else ns.listings path := by
    intro path ns
    split_ifs with h
    · refine List.filter_eq_nil_iff.mpr fun d hd => ?_
      simp [Namespace.path_of_mem_listings hd, h]
    · refine List.filter_eq_self.mpr fun d hd => ?_
      simp [Namespace.path_of_mem_listings hd, h]
  rw [printed, printedBlocks, listed, List.flatMap_map, List.filter_flatMap]
  induction m.namespaces with
  | nil => rfl
  | cons entry rest ih =>
    rw [List.flatMap_cons, ← ih, hpath]
    have hshown : Block.listings ⟨entry.1, entry.2.pieces⟩ = entry.2.listings entry.1 := by
      rw [Block.listings, Namespace.shown_pieces, Namespace.listings]
    by_cases hp : entry.1 = ""
    · rw [List.filter_cons_of_neg (by simp [isPrinted, hp]), if_pos hp, List.nil_append]
    · rw [if_neg hp]
      cases he : entry.2.isEmpty with
      | true =>
        rw [List.filter_cons_of_neg (by simp [isPrinted, he]), Namespace.listings_of_isEmpty he,
          List.nil_append]
      | false =>
        rw [List.filter_cons_of_pos (by simp [isPrinted, he, hp]), List.flatMap_cons, hshown]

/-! ## Counting -/

theorem length_classEntries (classes : List ClassEntry) : ∀ i : ℕ,
    (classEntries i classes).length =
      classes.length + total (classes.map fun c => c.methods.length + c.properties.length) := by
  induction classes with
  | nil => intro i; rfl
  | cons c rest ih =>
    intro i
    simp only [classEntries, ClassEntry.entriesAt, List.length_append, List.length_cons,
      List.length_map, List.map_cons, total, ih]
    omega

theorem Namespace.length_listings (ns : Namespace) (path : String) :
    (ns.listings path).length = ns.count := by
  simp only [listings, entries, count, List.length_map, List.length_append, length_classEntries]
  omega

/-- The count of a model is the number of its declarations. -/
theorem Model.length_listed (m : Model) : m.listed.length = m.count := by
  rw [listed, count]
  induction m.namespaces with
  | nil => rfl
  | cons entry rest ih =>
    rw [List.flatMap_cons, List.length_append, ih, List.map_cons, total, Namespace.length_listings]

end Ambient.Declaration
