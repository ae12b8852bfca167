import SymbolIndex.Command.Run
import SymbolIndex.Proofs.Engine.Alignment

/-!
# What the index command leaves

The command brings an index in line with a project file, whatever the sessions before it
have left in the index. In the end exactly the listed parts are stored, but for those
that were refused without being stored before. The file of a part that is dropped may go
to a part that is accepted. It is a member of that part afterwards unless another part of
the same id is accepted later in the list.
-/

namespace SymbolIndex

open Engine

/-- The stores that sessions leave to each other, each with its own surroundings and disk. -/
inductive Inherited : Store -> Prop where
  | empty : Inherited .empty
  | session {store : Store} (h : Inherited store) (s : Surroundings) (d : Disk) (concurrency : Nat)
      (history : List Event) :
      Inherited (World.run s ⟨d, .start store concurrency .empty⟩ history).engine.storage.store

theorem Inherited.whole {store : Store} (h : Inherited store) (concurrency : Nat) (log : CallLog) :
    (start store concurrency log).Whole := by
  induction h generalizing concurrency log with
  | empty => exact whole_start Store.sound_empty List.nodup_nil (by simp [Store.empty]) _ _
  | session _h s d concurrency' history ih =>
      have hwhole := World.whole_run (s := s) (w := ⟨d, _⟩) (ih concurrency' .empty) history
      exact whole_start hwhole.agrees.store hwhole.agrees.book.distinct hwhole.canonical _ _

/-- The surroundings in which sources are parsed and whatever is on the disk can be watched. -/
def Surroundings.ofGrammar (g : Grammar) : Surroundings where
  collect := Collected.ofFile g
  backend := .ofDisk
  fails := fun _ => none

/-- The store of a project that was gone through. -/
def Store.indexed (store : Store) (g : Grammar) (concurrency : Nat) (d : Disk) (parts : List Part) :
    Store :=
  (Engine.indexProject (.ofGrammar g d) (start store concurrency .empty) parts).2.storage.store

theorem Inherited.indexed {store : Store} (h : Inherited store) (g : Grammar) (concurrency : Nat)
    (d : Disk) (parts : List Part) :
    Inherited (store.indexed g concurrency d parts) ∧
      Follows parts store (store.indexed g concurrency d parts) := by
  rcases (h.whole concurrency .empty).indexProject (.ofGrammar g) d parts with
    ⟨-, hfollows, drain, -, hrun⟩
  refine ⟨?_, hfollows⟩
  have hsession := h.session (.ofGrammar g) d concurrency
    (.removeParts ((start store concurrency .empty).unlisted parts) :: .submit parts :: drain)
  rw [hrun] at hsession
  exact hsession

namespace Machine

variable {m : Machine} {settings : Settings} {d made opened d' : Disk} {project : Path}
  {watch : Bool} {parts : List Part} {store : Store} {summary : IndexSummary}

/-- What a command that succeeds has done. -/
theorem index_eq_ok (hproject : ProjectFile.load d project = .ok parts)
    (hmade : Settings.ensureDirectory d settings.database = .ok made)
    (hopened : Store.openAt made settings.database = .ok (store, opened))
    (hindex : m.index settings d project watch = (.ok summary, d')) :
    let t := store.indexed m.grammar (settings.concurrencyOn m.processors) opened parts
    t.save opened settings.database = .ok d' ∧ summary.counts = t.counts ∧
      (Engine.indexProject (.ofGrammar m.grammar opened)
        (start store (settings.concurrencyOn m.processors) .empty) parts).1 =
          .ok summary.report := by
  intro t
  unfold Machine.index at hindex
  rw [hproject] at hindex
  dsimp only at hindex
  rw [hmade] at hindex
  dsimp only at hindex
  rw [hopened] at hindex
  dsimp only at hindex
  split at hindex
  · cases hindex
  · cases hindex
  · rename_i _saved _report after report hsaved hreport
    cases hindex
    exact ⟨hsaved, rfl, hreport⟩

/--
After the index command has succeeded on a database that earlier sessions left, what is
stored has followed the project: nothing is left of the parts that are not listed, the
accepted parts are stored, the last of each id as it is listed, and parts that are only
listed in a form that was refused keep what they had, but for files that accepted parts
have. A file of an accepted part is its member unless another part of the same id is
accepted later in the list.
-/
theorem index_follows_project (hproject : ProjectFile.load d project = .ok parts)
    (hmade : Settings.ensureDirectory d settings.database = .ok made)
    (hopened : Store.openAt made settings.database = .ok (store, opened))
    (hinherited : Inherited store)
    (hindex : m.index settings d project watch = (.ok summary, d')) :
    let t := store.indexed m.grammar (settings.concurrencyOn m.processors) opened parts
    -- what the command says
    (sift [] parts).1.Sublist parts ∧
    (sift [] parts).1.length + (sift [] parts).2.length = parts.length ∧
    summary.report.rejected = (sift [] parts).2 ∧
    (forall id, id ∈ summary.report.dropped ↔ id ∈ store.partIds ∧ ¬ IsListed parts id) ∧
    summary.counts = t.counts ∧
    -- what it leaves
    t.save opened settings.database = .ok d' ∧ Inherited t ∧ Follows parts store t := by
  intro t
  rcases index_eq_ok hproject hmade hopened hindex with ⟨hsaved, hcounts, hreport⟩
  rcases (hinherited.whole (settings.concurrencyOn m.processors) .empty).indexProject
    (.ofGrammar m.grammar) opened parts with ⟨⟨report, hok, hdropped, hrejected⟩, -⟩
  have hsame : report = summary.report := Except.ok.inj (hok.symm.trans hreport)
  rw [hsame] at hdropped hrejected
  refine ⟨(sift_splits [] parts).1, (sift_splits [] parts).2, hrejected, ?_, hcounts, hsaved,
    hinherited.indexed m.grammar _ opened parts⟩
  intro id
  rw [hdropped, mem_unlisted, Store.mem_partIds]
  rfl

/-!
# A file that moves
-/

deriving instance DecidableEq for Disk

/-- A machine whose parser knows no source. -/
def blind : Machine := ⟨fun _ _ => none, 1, .plain⟩

/-- Settings that keep the index in `/w/index`. -/
def besides : Settings := ⟨.ofString "/w/index", some 1, 0, "info"⟩

def projectFile : Path := .ofString "/w/project"

/-- The disk once the project file lists some parts, each with its id and its file. -/
def listing (d : Disk) (listed : List (String × String)) : Disk :=
  d.put [Text.bytesOf "w", Text.bytesOf "project"] (.file (Text.bytesOf (String.join
    (listed.map fun (id, file) =>
      "[[project_parts]]\nid = \"" ++ id ++ "\"\nfiles = [\"" ++ file ++ "\"]\n"))) 0)

def partOf (id file : String) : Part := ⟨⟨id⟩, [.ofString file], [], [], []⟩

/-- The disk on which a part was indexed that has `/w/a`. -/
def lentDisk : Disk :=
  (blind.index besides (listing World.twoFileDisk [("lib", "/w/a")]) projectFile false).2

/-- What is stored of that part. -/
def lentStore : Store :=
  Store.empty.indexed blind.grammar 1 (listing World.twoFileDisk [("lib", "/w/a")])
    [partOf "lib" "/w/a"]

/-- The file moves from a part that is not listed any more to one that is. -/
theorem moved_file_is_member :
    exists t, Inherited t ∧ IsRidOf t ⟨"lib"⟩ ∧
      exists file, PathBook.empty.find? t (.ofString "/w/a") = some file ∧
        t.members.get? file = some ⟨"app"⟩ := by
  have hproject : ProjectFile.load (listing lentDisk [("app", "/w/a")]) projectFile =
      .ok [partOf "app" "/w/a"] := by decide +kernel
  have hmade : Settings.ensureDirectory (listing lentDisk [("app", "/w/a")]) besides.database =
      .ok (listing lentDisk [("app", "/w/a")]) := by decide +kernel
  have hopened : Store.openAt (listing lentDisk [("app", "/w/a")]) besides.database =
      .ok (lentStore, listing lentDisk [("app", "/w/a")]) := by decide +kernel
  have hok : (blind.index besides (listing lentDisk [("app", "/w/a")]) projectFile
      false).1.isOk = true := by decide +kernel
  rcases hindex : blind.index besides (listing lentDisk [("app", "/w/a")]) projectFile false with
    ⟨problem | summary, d'⟩
  · rw [hindex] at hok
    cases hok
  · have hlent : Inherited lentStore := (Inherited.empty.indexed _ _ _ _).1
    rcases index_follows_project hproject hmade hopened hlent hindex with
      ⟨-, -, -, -, -, -, hinherited, hfollows⟩
    have haccepted : (sift [] [partOf "app" "/w/a"]).1 = [] ++ partOf "app" "/w/a" :: [] := by
      decide +kernel
    rcases hfollows.files [] (partOf "app" "/w/a") [] haccepted _ List.mem_cons_self with
      ⟨file, hfound, hmember⟩
    refine ⟨_, hinherited, (hfollows.dropped ⟨"lib"⟩ ?_).1, file, hfound, hmember.mpr nofun⟩
    rintro ⟨part, hpart, hid⟩
    rw [List.mem_singleton.mp hpart] at hid
    exact absurd hid (by decide)

/-- The file moves to a part that is accepted, but that another one of its id comes after. -/
theorem moved_file_is_lost :
    ProjectFile.load (listing lentDisk [("app", "/w/a"), ("app", "/w/b")]) projectFile =
        .ok [partOf "app" "/w/a", partOf "app" "/w/b"] ∧
      ((Command.openIndex lentDisk besides.database).toOption.bind fun s =>
        s.members.get? ⟨1⟩) = some ⟨"lib"⟩ ∧
      ((blind.index besides (listing lentDisk [("app", "/w/a"), ("app", "/w/b")]) projectFile
        false).1.toOption.map fun summary => (summary.report.dropped, summary.report.rejected)) =
          some ([⟨"lib"⟩], []) ∧
      ((Command.openIndex (blind.index besides (listing lentDisk [("app", "/w/a"), ("app", "/w/b")])
        projectFile false).2 besides.database).toOption.map fun s =>
          (PathBook.empty.find? s (.ofString "/w/a"), s.members.get? ⟨1⟩)) =
            some (some ⟨1⟩, none) := by
  decide +kernel

end Machine
end SymbolIndex
