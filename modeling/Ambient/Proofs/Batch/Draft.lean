import Ambient.Batch.Declare
import Ambient.Proofs.Batch.Discovery
import Ambient.Proofs.Batch.Work

/-!
# Declaring one file

What is written for a file is settled before anything is written: a draft, which depends on the
bytes of the file and on paths alone. Writing it is the one change of the disk, and the one thing
that files can refuse.

* `Draft`, `draftOf`, `Draft.write`;
* **`run_declareFile`**: to declare a file is to write its draft;
* `Drafted`, `drafted_of_run`: declaring a file where no write fails;
* `draftOf_below`: the draft of a script below a folder;
* `place_of_deposit?`: where the declarations of a script are deposited.
-/

namespace Ambient.Batch

open Ambient.Declaration (Module)
open Ambient.Files
open Ambient.Files.Path (Normal)

/-! ## Drafts -/

/-- What is to be written for a file: the product that will tell of it, and the text. -/
structure Draft where
  product : Product
  text : String
  deriving DecidableEq

/-- The draft for the bytes of a file, seen from a current folder and with a root. -/
def draft (s : Settings) (current file root output : String) (bytes : List UInt8) :
    Except Failure Draft :=
  let program := Script.Program.ofBytes bytes
  match Module.ofStatements (passOptions s (label current file (some root))) program.statements with
  | .error e => .error (.module e)
  | .ok m =>
    let text := m.render s.emitComments
    let fatal := m.fatalResults.length
    if text.isEmpty then .ok ⟨⟨none, 0, fatal, program.errors⟩, text⟩
    else
      .ok ⟨⟨some (declarationPath current file root output), m.model.count, fatal, program.errors⟩,
        text⟩

/-- The draft for a file on a disk. -/
def draftOf (s : Settings) (d : Disk) (path output : String) (root : Option String) :
    Except Failure Draft :=
  let file := d.absolute path
  if !d.isFile file then .error (.noFile file)
  else if !isSource file then .error (.notSource file)
  else
    match d.read file with
    | .error fault => .error (.fault fault)
    | .ok bytes => draft s d.currentPath file (rootOf d.currentPath file root) output bytes

/-- Writing a draft, which leaves the disk as it is if there is nothing to write. -/
def Draft.write (w : Draft) (d : Disk) : Except Failure Product × Disk :=
  match w.product.path with
  | none => (.ok w.product, d)
  | some target =>
    match (Work.writeUnder (Path.orHere (Path.folder target)) target w.text).run d with
    | (.ok _, e) => (.ok w.product, e)
    | (.error why, e) => (.error why, e)

/-- **To declare a file** is to write its draft. -/
theorem run_declareFile (s : Settings) (path output : String) (root : Option String) (d : Disk) :
    (declareFile s path output root).run d =
      match draftOf s d path output root with
      | .error why => (.error why, d)
      | .ok w => w.write d := by
  unfold declareFile draftOf
  simp only [Work.run_bind, Work.run_look, Disk.absolute]
  by_cases hfile : d.isFile (Path.absolute d.currentPath path) = true
  · by_cases hsource : isSource (Path.absolute d.currentPath path) = true
    · simp only [hfile, hsource, Bool.not_true, Bool.false_eq_true, ↓reduceIte, Work.run_bind,
        Work.run_ask]
      cases d.read (Path.absolute d.currentPath path) with
      | error fault => rfl
      | ok bytes =>
        simp only [draft]
        generalize Module.ofStatements _ (Script.Program.ofBytes bytes).statements = result
        cases result with
        | error why => rfl
        | ok m =>
          by_cases htext : (m.render s.emitComments).isEmpty = true
          · simp only [htext, ↓reduceIte, Draft.write, Work.run_pure]
          · rw [Bool.not_eq_true] at htext
            simp only [htext, Bool.false_eq_true, ↓reduceIte, Draft.write, Work.run_bind,
              Work.run_pure]
            generalize Work.run _ d = written
            rcases written with ⟨_ | _, e⟩ <;> rfl
    · rw [Bool.not_eq_true] at hsource
      simp only [hfile, hsource, Bool.not_true, Bool.not_false, Bool.false_eq_true, ↓reduceIte,
        Work.run_bind, Work.run_throw]
  · rw [Bool.not_eq_true] at hfile
    simp only [hfile, Bool.not_false, ↓reduceIte, Work.run_bind, Work.run_throw]

variable {s : Settings} {d e : Disk} {lead folder file name path output : String}
  {root : Option String} {ns above : List String} {w : Draft}

/-- A draft says that it is to be written where the declarations of the file go. -/
theorem path_of_draft {current top : String} {bytes : List UInt8} {target : String}
    (h : draft s current file top output bytes = .ok w) (hpath : w.product.path = some target) :
    target = declarationPath current file top output := by
  unfold draft at h
  dsimp only at h
  split at h
  · cases h
  · split_ifs at h
    · obtain rfl := Except.ok.inj h
      cases hpath
    · obtain rfl := Except.ok.inj h
      exact (Option.some.inj hpath).symm

/-! ## Writing -/

/-- The deposit that writing a draft makes, if there is something to write. -/
def Draft.deposit? (w : Draft) (d : Disk) : Option Disk.Deposit :=
  w.product.path.map fun target =>
    d.deposit (Path.orHere (Path.folder target)) target (Text.Utf8.encode w.text)

/-- Declaring a file where no write fails, by the draft for it: the outcome and the disk after
it. -/
inductive Drafted (d : Disk) : Except Failure Draft → Except Failure Product × Disk → Prop
  /-- There is no draft. -/
  | failed (why : Failure) : Drafted d (.error why) (.error why, d)
  /-- There is nothing to write. -/
  | empty (w : Draft) (hpath : w.product.path = none) : Drafted d (.ok w) (.ok w.product, d)
  /-- The text is written, and the path leads to it. -/
  | written (w : Draft) {target : String} {deposit : Disk.Deposit} {e : Disk}
      (hpath : w.product.path = some target) (hdeposit : w.deposit? d = some deposit)
      (hstored : Disk.Stored d deposit e) (hlocate : e.locate? target = .ok deposit.place) :
      Drafted d (.ok w) (.ok w.product, e)

/-- Only a write can be refused. -/
theorem drafted_of_run
    (h : ∀ fault, ((declareFile s path output root).run d).1 ≠ .error (.fault fault)) :
    Drafted d (draftOf s d path output root) ((declareFile s path output root).run d) := by
  rw [run_declareFile] at h ⊢
  cases hdraft : draftOf s d path output root with
  | error why => exact .failed why
  | ok w =>
    rw [hdraft] at h
    dsimp only at h ⊢
    unfold Draft.write at h ⊢
    cases hpath : w.product.path with
    | none => exact .empty w hpath
    | some target =>
      rw [hpath] at h
      dsimp only at h ⊢
      rw [Work.run_writeUnder] at h ⊢
      cases hm : d.makeFolders (Path.orHere (Path.folder target)) with
      | error fault =>
        rw [hm] at h
        exact absurd rfl (h fault)
      | ok m =>
        rw [hm] at h
        dsimp only at h ⊢
        cases he : m.write target (Text.Utf8.encode w.text) with
        | error fault =>
          rw [he] at h
          exact absurd rfl (h fault)
        | ok e =>
          obtain ⟨hstored, hlocate⟩ := Disk.stored_of_written hm he
          exact .written w hpath (by rw [Draft.deposit?, hpath]; rfl) hstored hlocate

namespace Drafted

variable {o : Except Failure Draft} {r : Except Failure Product × Disk}

/-- The outcome is that of the draft. -/
theorem outcome_eq (h : Drafted d o r) : r.1 = o.map Draft.product := by
  cases h <;> rfl

/-- The disk after it has one deposit more, if there is something to write. -/
theorem laid {d₀ : Disk} {ws : List Disk.Deposit} (h : Drafted d o r) (hd : Disk.Laid d₀ ws d)
    (hsame : ∀ v ∈ ws, ∀ w ∈ o.toOption.bind (·.deposit? d), v.place = w.place →
      v.bytes = w.bytes) :
    Disk.Laid d₀ (ws ++ (o.toOption.bind (·.deposit? d)).toList) r.2 := by
  cases h with
  | failed why => simpa [Except.toOption] using hd
  | empty w hpath => simpa [Except.toOption, Draft.deposit?, hpath] using hd
  | written w hpath hdeposit hstored =>
    have hdeposits : (Except.ok w : Except Failure Draft).toOption.bind (·.deposit? d) = some _ :=
      hdeposit
    rw [hdeposits] at hsame ⊢
    exact hd.concat hstored fun v hv => hsame v hv _ rfl

/-- There is nothing to write and nothing has changed, or what there is to write has been stored and
the path that the product names leads to it. -/
theorem deposit_cases (h : Drafted d o r) :
    (o.toOption.bind (·.deposit? d) = none ∧ (∀ p, r.1 = .ok p → p.path = none) ∧ r.2 = d) ∨
      ∃ w p target, o.toOption.bind (·.deposit? d) = some w ∧
        (r.1 = .ok p ∧ p.path = some target) ∧ Disk.Stored d w r.2 ∧
        r.2.locate? target = .ok w.place := by
  cases h with
  | failed why => exact Or.inl ⟨rfl, fun p hp => (by cases hp), rfl⟩
  | empty w hpath =>
    refine Or.inl ⟨?_, fun p hp => ?_, rfl⟩
    · simp [Except.toOption, Draft.deposit?, hpath]
    · rwa [← Except.ok.inj hp]
  | written w hpath hdeposit hstored hlocate =>
    exact Or.inr ⟨_, _, _, hdeposit, ⟨rfl, hpath⟩, hstored, hlocate⟩

end Drafted

/-- Declaring a file never changes the current folder. -/
theorem current_run_declareFile (s : Settings) (path output : String) (root : Option String)
    (d : Disk) : ((declareFile s path output root).run d).2.current = d.current := by
  rw [run_declareFile]
  cases draftOf s d path output root with
  | error why => rfl
  | ok w =>
    dsimp only
    unfold Draft.write
    cases w.product.path with
    | none => rfl
    | some target =>
      dsimp only
      rw [Work.run_writeUnder]
      cases hm : d.makeFolders (Path.orHere (Path.folder target)) with
      | error fault => rfl
      | ok m =>
        dsimp only
        have hmade : m.current = d.current := by
          rw [Disk.makeFolders] at hm
          split_ifs at hm
          exact (Disk.made_of_makeFrom hm).current
        cases he : m.write target (Text.Utf8.encode w.text) with
        | error fault => exact hmade
        | ok e =>
          obtain ⟨-, -, -, -, -, -, -, rfl⟩ := Disk.write_eq_ok he
          exact hmade

/-! ## Scripts below a folder -/

theorem rootOf_some {root : String} (h : root ≠ "") (current path : String) :
    rootOf current path (some root) = Path.absolute current root := by
  have hsome : (some root).filter (fun r => !r.isEmpty) = some root := by
    simpa [Option.filter_eq_some_iff] using h
  rw [rootOf, hsome]

theorem draftOf_of_read {bytes : List UInt8} (hfile : d.isFile (d.absolute path) = true)
    (hsource : isSource (d.absolute path) = true) (hread : d.read (d.absolute path) = .ok bytes) :
    draftOf s d path output root =
      draft s d.currentPath (d.absolute path)
        (rootOf d.currentPath (d.absolute path) root) output bytes := by
  unfold draftOf
  dsimp only
  rw [hfile, hsource, hread]
  rfl

/-- **The draft of a script** below a folder depends on its bytes and on paths alone. -/
theorem draftOf_below (h : Below d lead ns above name file) {root : String} (hroot : root ≠ "")
    (hsame : d.absolute root = folder) (hcurrent : e.current = d.current) {bytes : List UInt8}
    (hlocate : e.locate? file = .ok (ns ++ (above ++ [name])))
    (hfile : e.node? (ns ++ (above ++ [name])) = some (.file bytes)) :
    draftOf s e file output (some root) = draft s d.currentPath file folder output bytes := by
  have hpath : e.absolute file = file := h.normal.absolute_eq _
  have hhere := Disk.currentPath_congr hcurrent
  have hroot' : rootOf d.currentPath file (some root) = folder := by
    rw [rootOf_some hroot, ← hsame]
    rfl
  have hread : e.read (e.absolute file) = .ok bytes := by
    rw [hpath]
    exact Disk.read_of_locate? hlocate hfile
  rw [draftOf_of_read (by rw [hpath]; exact Disk.isFile_of_locate? hlocate hfile)
    (by rw [hpath]; exact h.isSource_file) hread, hpath, hhere, hroot']

theorem deposit?_congr (h : e.current = d.current) (w : Draft) : w.deposit? e = w.deposit? d := by
  have hdeposit : ∀ folder path bytes, e.deposit folder path bytes = d.deposit folder path bytes :=
    fun folder path bytes => by
      rw [Disk.deposit, Disk.deposit, Disk.start_congr h, Disk.start_congr h]
  simp only [Draft.deposit?, hdeposit]

/-- The declarations of a script are deposited below the place of the output folder. -/
theorem place_of_deposit? (h : Below d lead ns above name file) (hfolder : Normal lead ns folder)
    {bytes : List UInt8} (hdraft : draft s d.currentPath file folder output bytes = .ok w)
    {deposit : Disk.Deposit} (hdeposit : w.deposit? d = some deposit) :
    deposit.place =
      Disk.follow (d.start output) (Path.names output) ++ (above ++ [declarationName name]) := by
  obtain ⟨target, hpath, htarget⟩ := Option.map_eq_some_iff.mp hdeposit
  have hplace : deposit.place = Disk.follow (d.start target) (Path.names target) := by
    rw [← htarget, Disk.deposit]
  rw [hplace, path_of_draft hdraft hpath, h.follow_declarationPath hfolder]

end Ambient.Batch
