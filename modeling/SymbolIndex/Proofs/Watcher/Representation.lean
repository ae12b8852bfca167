import Mathlib.Data.List.Induction
import SymbolIndex.Proofs.Watcher.Moves
import SymbolIndex.Watcher.Requests

/-!
# What a watcher keeps

Whatever is asked of a new watcher, its tables agree with each other: ids and paths are
inverse, every directory counts the files that are watched in it, and no file is both
watched and unwatchable. Every request is a course of moves, and the files that could not
be watched in it are reported together, once. All this needs that no two ids are added
under one path; whether the backend can watch a directory may change from call to call.
-/

namespace SymbolIndex
namespace Watcher

variable {b : Backend} {w w' : Watcher} {id other : FileId} {p q : Path} {ids : List FileId}
  {files : List (FileId × Path)}

/-- The tables of a watcher agree with each other. -/
structure Coherent (w : Watcher) : Prop where
  inverse : forall cs id, w.byPath.get? cs = some id ↔ w.place? id = some cs
  counted : forall directory count, w.directories.get? directory = some count ↔
    0 < count ∧ count = w.population directory
  apart : forall id, w.isWatched id = true -> w.isUnwatchable id = false

theorem place?_eq_some_iff {cs : List Component} :
    w.place? id = some cs ↔ exists p, w.byId.get? id = some p ∧ p.components = cs := by
  rw [place?, Option.map_eq_some_iff]

theorem Coherent.paired (h : w.Coherent) : w.Paired where
  listed := by
    intro cs id hid
    exact place?_eq_some_iff.mp ((h.inverse cs id).mp hid)
  found := by
    intro id p hp
    exact (h.inverse _ id).mpr (place?_eq_some_iff.mpr ⟨p, hp, rfl⟩)
  counted := by
    intro directory
    cases hcount : w.directories.get? directory with
    | some count => exact ((h.counted directory count).mp hcount).2
    | none =>
        rcases Nat.eq_zero_or_pos (w.population directory) with hzero | hcrowd
        · rw [Option.getD_none, hzero]
        · rw [(h.counted directory _).mpr ⟨hcrowd, rfl⟩] at hcount
          cases hcount

/-- No count of a directory is zero. -/
def Positive (w : Watcher) : Prop :=
  forall directory count, w.directories.get? directory = some count -> 0 < count

theorem Coherent.positive (h : w.Coherent) : w.Positive :=
  fun directory count hcount => ((h.counted directory count).mp hcount).1

theorem Paired.coherent (h : w.Paired) (hpositive : w.Positive)
    (hapart : forall id, w.isWatched id = true -> w.isUnwatchable id = false) : w.Coherent where
  inverse := by
    intro cs id
    rw [place?_eq_some_iff]
    constructor
    · exact h.listed cs id
    · rintro ⟨p, hp, rfl⟩
      exact h.found id p hp
  counted := by
    intro directory count
    rw [← h.counted]
    constructor
    · intro hcount
      rw [hcount]
      exact ⟨hpositive directory count hcount, rfl⟩
    · rintro ⟨hpos, hcount⟩
      cases hsome : w.directories.get? directory with
      | none =>
          rw [hcount, hsome] at hpos
          exact absurd hpos (Nat.lt_irrefl 0)
      | some found =>
          rw [hcount, hsome]
          rfl
  apart := hapart

theorem Coherent.contains_iff (h : w.Coherent) (directory : List Component) :
    w.directories.contains directory = true ↔ 0 < w.population directory := by
  rw [Table.contains_iff]
  constructor
  · rintro ⟨count, hcount⟩
    rcases (h.counted directory count).mp hcount with ⟨hpos, rfl⟩
    exact hpos
  · exact fun hpos => ⟨_, (h.counted directory _).mpr ⟨hpos, rfl⟩⟩

theorem coherent_empty : empty.Coherent := by
  refine paired_empty.coherent ?_ ?_
  · intro directory count hcount
    cases hcount
  · intro id hid
    cases hid

theorem steady_empty (b : Backend) : empty.Steady b :=
  fun directory => iff_of_false (not_inForce_nil b directory) (Nat.lt_irrefl 0)

/-!
# Letting files go
-/

theorem positive_leave (h : w.Positive) (directory : Path) : (w.leave directory).Positive := by
  unfold leave
  split
  · split
    · intro cs count hcount
      dsimp only at hcount
      rw [Table.get?_insert] at hcount
      split at hcount
      · cases hcount
        omega
      · exact h cs count hcount
    · intro cs count hcount
      replace hcount : (w.directories.erase directory.components).get? cs = some count := hcount
      rw [Table.get?_erase] at hcount
      split at hcount
      · cases hcount
      · exact h cs count hcount
  · exact h

theorem calls_drop (h : w.Coherent) (hp : w.byId.get? id = some p) :
    (w.drop id).calls = w.calls ++
      if w.population (directoryOf p).components = 1 then [.unwatch (directoryOf p)] else [] := by
  have hcrowd : 0 < w.population (directoryOf p).components := by
    rw [population_erase hp (drop_of_get? hp).1, if_pos rfl]
    exact Nat.succ_pos _
  unfold drop leave
  rw [hp]
  dsimp only
  rw [(h.counted _ _).mpr ⟨hcrowd, rfl⟩]
  dsimp only
  by_cases hlast : w.population (directoryOf p).components = 1
  · rw [if_neg (by omega), if_pos hlast]
    rfl
  · rw [if_pos (by omega), if_neg hlast, List.append_nil]

theorem Coherent.drop (h : w.Coherent) (id : FileId) : (w.drop id).Coherent := by
  refine (h.paired.drop id).coherent ?_ ?_
  · unfold Watcher.drop
    split
    · exact h.positive
    · apply positive_leave
      exact h.positive
  · intro other hother
    rw [isUnwatchable, unwatchable_drop]
    apply h.apart
    rw [isWatched, Table.contains, get?_byId_drop] at hother
    split at hother
    · cases hother
    · exact hother

theorem course_drop (h : w.Coherent) (b : Backend) (id : FileId) : Course b w [] (w.drop id) := by
  cases hp : w.byId.get? id with
  | none =>
      rw [drop_of_get?_eq_none hp]
      exact .rest
  | some p =>
      have hids := (drop_of_get? hp).1
      have hcalls := calls_drop h hp
      by_cases hlast : w.population (directoryOf p).components = 1
      · rw [if_pos hlast] at hcalls
        exact (Move.closed id p hp hlast hids (unwatchable_drop w id) hcalls).course
      · rw [if_neg hlast, List.append_nil] at hcalls
        have hcrowd := population_erase hp hids (directoryOf p).components
        rw [if_pos rfl] at hcrowd
        exact (Move.left id p hp (by omega) hids (unwatchable_drop w id) hcalls).course

/-- A file is neither watched nor remembered as unwatchable any more. -/
def letGo (w : Watcher) (id : FileId) : Watcher :=
  { w.drop id with unwatchable := (w.drop id).unwatchable.erase id }

theorem Coherent.letGo (h : w.Coherent) (id : FileId) : (w.letGo id).Coherent := by
  have hdropped := h.drop id
  refine ⟨hdropped.inverse, hdropped.counted, ?_⟩
  intro other hother
  have hspared := (Table.contains_eq_false_iff _ _).mp (hdropped.apart other hother)
  rw [isUnwatchable, Table.contains_eq_false_iff, Watcher.letGo]
  dsimp only
  rw [Table.get?_erase, hspared, ite_self]

theorem course_letGo (h : w.Coherent) (b : Backend) (id : FileId) : Course b w [] (w.letGo id) :=
  (course_drop h b id).silent (.forgotten id rfl rfl rfl)

/-!
# Adding a file
-/

/-- What is watched at a place is watched there under one id only. -/
def Free (w : Watcher) (id : FileId) (p : Path) : Prop :=
  forall other q, w.byId.get? other = some q -> q.components = p.components -> other = id

/-- A file that comes makes one move, and it is refused only if it is said to be. -/
theorem insert_moves (h : w.Coherent) (hnew : w.byId.get? id = none)
    (hspared : w.unwatchable.get? id = none) (hfree : w.Free id p) :
    (exists w₁ w₂, insert b w id p = (some w₁, w₂) ∧ w₁.Coherent ∧ Move b w w₁ none) ∨
      exists w₂, insert b w id p = (none, w₂) ∧
        ({ w₂ with unwatchable := w₂.unwatchable.insert id p } : Watcher).Coherent ∧
        Move b w { w₂ with unwatchable := w₂.unwatchable.insert id p } (some id) := by
  have hplace : forall other q, w.byId.get? other = some q -> q.components ≠ p.components := by
    intro other q hq hsame
    rw [hfree other q hq hsame, hnew] at hq
    cases hq
  have hjoin : forall w₁ : Watcher, w₁.byPath = w.byPath.insert p.components id ->
      w₁.byId = w.byId.insert id p -> w₁.unwatchable = w.unwatchable ->
      w₁.directories = w.directories.insert (directoryOf p).components
        ((w.directories.get? (directoryOf p).components).getD 0 + 1) -> w₁.Coherent := by
    intro w₁ hpaths hids hmarks hdirectories
    refine (h.paired.watch hnew hplace hpaths hids hdirectories).coherent ?_ ?_
    · intro directory count hcount
      rw [hdirectories, Table.get?_insert] at hcount
      split at hcount
      · cases hcount
        exact Nat.succ_pos _
      · exact h.positive directory count hcount
    · intro other hother
      rw [isUnwatchable, hmarks, Table.contains_eq_false_iff]
      rw [isWatched, hids, Table.contains, Table.get?_insert] at hother
      split at hother
      · rename_i hid
        rw [← hid]
        exact hspared
      · exact (Table.contains_eq_false_iff _ _).mp (h.apart other hother)
  unfold insert
  dsimp only
  rw [h.paired.counted] at hjoin ⊢
  by_cases hcrowd : w.population (directoryOf p).components = 0
  · rw [if_pos hcrowd]
    cases haccepts : b.accepts w.calls.length (directoryOf p) with
    | true =>
        exact Or.inl ⟨_, _, rfl, hjoin _ rfl rfl rfl rfl,
          .opened id p hnew hspared hcrowd haccepts rfl rfl rfl⟩
    | false =>
        refine Or.inr ⟨_, rfl, ?_, .refused id p hnew hspared hcrowd haccepts rfl rfl rfl⟩
        refine ⟨h.inverse, h.counted, ?_⟩
        intro other hother
        have hold := (Table.contains_eq_false_iff _ _).mp (h.apart other hother)
        rw [isUnwatchable, Table.contains_eq_false_iff]
        show (w.unwatchable.insert id p).get? other = none
        rw [Table.get?_insert, if_neg, hold]
        rintro rfl
        replace hother : w.byId.contains id = true := hother
        rw [Table.contains, hnew] at hother
        cases hother
  · rw [if_neg hcrowd]
    exact Or.inl ⟨_, _, rfl, hjoin _ rfl rfl rfl rfl,
      .joined id p hnew hspared (Nat.pos_of_ne_zero hcrowd) rfl rfl rfl⟩

theorem Free.letGo (h : w.Free id p) (other : FileId) : (w.letGo other).Free id p := by
  intro found q hq
  replace hq : (w.drop other).byId.get? found = some q := hq
  rw [get?_byId_drop] at hq
  split at hq
  · cases hq
  · exact h found q hq

theorem addOne_of_not_lists (h : ¬ w.Lists id p) : addOne b w id p =
    match insert b (w.letGo id) id p with
    | (some w, _) => (false, w)
    | (none, w) => (true, { w with unwatchable := w.unwatchable.insert id p }) := by
  unfold addOne
  rw [if_neg (by simpa [Lists] using h)]
  rfl

theorem addOne_moves (h : w.Coherent) (b : Backend) (hfree : w.Free id p) :
    exists refused w', addOne b w id p = (refused, w') ∧ w'.Coherent ∧
      Course b w (if refused then [id] else []) w' := by
  by_cases hlists : w.Lists id p
  · exact ⟨false, w, addOne_of_lists hlists, h, .rest⟩
  · have hgone := course_letGo h b id
    have hnew : (w.letGo id).byId.get? id = none := (get?_byId_drop w id id).trans (if_pos rfl)
    have hspared : (w.letGo id).unwatchable.get? id = none :=
      (Table.get?_erase (w.drop id).unwatchable id id).trans (if_pos rfl)
    have hmoves := insert_moves (b := b) (h.letGo id) hnew hspared (hfree.letGo id)
    rw [addOne_of_not_lists hlists]
    rcases hmoves with ⟨w₁, w₂, heq, hcoherent, hmove⟩ | ⟨w₂, heq, hcoherent, hmove⟩
    · rw [heq]
      exact ⟨false, w₁, rfl, hcoherent, hgone.silent hmove⟩
    · rw [heq]
      exact ⟨true, _, rfl, hcoherent, .move [] (some id) _ _ hgone hmove⟩

/-!
# Requests
-/

/-- No two ids stand with one path, in whatever spelling. -/
def Distinct (files : List (FileId × Path)) : Prop :=
  forall f, f ∈ files -> forall g, g ∈ files -> f.2.same g.2 = true -> f.1 = g.1

/-- What is watched was added, under the path under which it is watched. -/
def Within (w : Watcher) (files : List (FileId × Path)) : Prop :=
  forall id p, w.byId.get? id = some p -> (id, p) ∈ files

variable {all : List (FileId × Path)}

theorem Within.free (h : w.Within all) (hdistinct : Distinct all) (hfile : (id, p) ∈ all) :
    w.Free id p :=
  fun other q hq hsame => hdistinct (other, q) (h other q hq) (id, p) hfile (decide_eq_true hsame)

theorem addEach_moves (h : w.Coherent) (hwithin : w.Within all) (hdistinct : Distinct all)
    (b : Backend) (hfiles : forall f, f ∈ files -> f ∈ all) :
    exists failed w', addEach b w files = (failed, w') ∧ w'.Coherent ∧ w'.Within all ∧
      Course b w failed w' := by
  induction files generalizing w with
  | nil => exact ⟨[], w, rfl, h, hwithin, .rest⟩
  | cons file rest ih =>
      have hfile := hfiles file List.mem_cons_self
      rcases addOne_moves h b (hwithin.free hdistinct hfile) with
        ⟨refused, v, hone, hcoherent, hcourse⟩
      have hv : v.Within all := by
        intro found q hq
        rcases get?_byId_addOne b w file.1 file.2 (by rw [hone]; exact hq) with hold | ⟨rfl, rfl⟩
        · exact hwithin found q hold
        · exact hfile
      rcases ih hcoherent hv (fun f hf => hfiles f (List.mem_cons_of_mem _ hf)) with
        ⟨failed, w', hmore, hlast, hlastWithin, hthen⟩
      refine ⟨(if refused then [file.1] else []) ++ failed, w', ?_, hlast, hlastWithin,
        hcourse.trans hthen⟩
      rw [addEach, hone]
      dsimp only
      rw [hmore]
      cases refused <;> rfl

theorem foldl_moves {go : Watcher -> FileId -> Watcher}
    (hgo : forall w id, w.Coherent -> (go w id).Coherent ∧ Course b w [] (go w id))
    (h : w.Coherent) (ids : List FileId) :
    (ids.foldl go w).Coherent ∧ Course b w [] (ids.foldl go w) := by
  induction ids generalizing w with
  | nil => exact ⟨h, .rest⟩
  | cons id rest ih =>
      rcases hgo w id h with ⟨hone, hfirst⟩
      rcases ih hone with ⟨hcoherent, hthen⟩
      exact ⟨hcoherent, hfirst.trans hthen⟩

theorem remove_eq (w : Watcher) (ids : List FileId) : w.remove ids = ids.foldl letGo w := by
  unfold remove
  congr
  funext w id
  rw [letGo, unwatchable_drop]

theorem remove_moves (h : w.Coherent) (b : Backend) (ids : List FileId) :
    (w.remove ids).Coherent ∧ Course b w [] (w.remove ids) := by
  rw [remove_eq]
  exact foldl_moves (fun _ id hw => ⟨hw.letGo id, course_letGo hw b id⟩) h ids

theorem foldl_drop_moves (h : w.Coherent) (b : Backend) (ids : List FileId) :
    (ids.foldl drop w).Coherent ∧ Course b w [] (ids.foldl drop w) :=
  foldl_moves (fun _ id hw => ⟨hw.drop id, course_drop hw b id⟩) h ids

theorem Coherent.of_same (h : w.Coherent) (hpaths : w'.byPath = w.byPath) (hids : w'.byId = w.byId)
    (hdirectories : w'.directories = w.directories) (hmarks : w'.unwatchable = w.unwatchable) :
    w'.Coherent := by
  refine (h.paired.of_same hpaths hids hdirectories).coherent ?_ ?_
  · rw [Positive, hdirectories]
    exact h.positive
  · intro other
    rw [isWatched, isUnwatchable, hids, hmarks]
    exact h.apart other

/--
A request is a course of moves, after which at most the outbox changes. A request to add
files reports those that could not be watched, if there are any, together and once; no
other request fails to watch files.
-/
def Served (b : Backend) (w w' : Watcher) (request : WatchRequest) : Prop :=
  exists failed news v, Course b w failed v ∧ w' = { v with outbox := w.outbox ++ news } ∧
    match request with
    | .add _ => news = if failed.isEmpty then [] else [.removed failed]
    | .remove _ => failed = [] ∧ news = []
    | .flush _ _ => failed = []

theorem serve_moves (h : w.Coherent) (hwithin : w.Within all) (hdistinct : Distinct all)
    (b : Backend) {request : WatchRequest} (hrequest : forall f, f ∈ request.added -> f ∈ all) :
    (serve b w request).Coherent ∧ (serve b w request).Within all ∧
      Served b w (serve b w request) request := by
  cases request with
  | add files =>
      have hfiles : forall f, f ∈ files -> f ∈ all := hrequest
      rcases addEach_moves h hwithin hdistinct b hfiles with
        ⟨failed, v, heach, hcoherent, hv, hcourse⟩
      have hserve : serve b w (.add files) = { v with
          outbox := w.outbox ++ if failed.isEmpty then [] else [.removed failed] } := by
        have houtbox := outbox_addEach b w files
        rw [heach] at houtbox
        unfold serve add
        dsimp only
        rw [heach]
        dsimp only
        rw [← houtbox]
        split
        · rw [List.append_nil]
        · rfl
      rw [hserve]
      exact ⟨hcoherent.of_same rfl rfl rfl rfl, hv, failed, _, v, hcourse, rfl, rfl⟩
  | remove ids =>
      rcases remove_moves h b ids with ⟨hcoherent, hcourse⟩
      refine ⟨hcoherent, ?_, [], [], w.remove ids, hcourse, ?_, rfl, rfl⟩
      · intro id p hp
        replace hp : (w.remove ids).byId.get? id = some p := hp
        rw [get?_byId_remove] at hp
        split at hp
        · cases hp
        · exact hwithin id p hp
      · rw [List.append_nil, ← outbox_remove w ids]
        rfl
  | flush d events =>
      rcases flush_eq w d events with ⟨news, heq, -⟩
      rcases foldl_drop_moves h b (w.missing d events) with ⟨hcoherent, hcourse⟩
      have hserve : serve b w (.flush d events) =
          { (w.missing d events).foldl drop w with outbox := w.outbox ++ news } := heq
      rw [hserve]
      refine ⟨hcoherent.of_same rfl rfl rfl rfl, ?_, [], news, _, hcourse, rfl, rfl⟩
      intro id p hp
      replace hp : ((w.missing d events).foldl drop w).byId.get? id = some p := hp
      rw [get?_byId_foldl_drop] at hp
      split at hp
      · cases hp
      · exact hwithin id p hp

/-!
# Any requests
-/

variable {requests : List WatchRequest}

theorem after_concat (b : Backend) (requests : List WatchRequest) (request : WatchRequest) :
    after b (requests ++ [request]) = serve b (after b requests) request := by
  unfold after
  rw [List.foldl_append]
  rfl

theorem after_invariant (b : Backend)
    (hrequests : forall f, f ∈ requests.flatMap WatchRequest.added -> f ∈ all)
    (hdistinct : Distinct all) :
    (after b requests).Coherent ∧ (after b requests).Within all ∧ (after b requests).Steady b := by
  induction requests using List.reverseRecOn with
  | nil =>
      refine ⟨coherent_empty, ?_, steady_empty b⟩
      intro id p hp
      cases hp
  | append_singleton earlier request ih =>
      simp only [List.flatMap_append, List.mem_append] at hrequests
      rcases ih fun f hf => hrequests f (Or.inl hf) with ⟨hcoherent, hwithin, hsteady⟩
      rcases serve_moves hcoherent hwithin hdistinct b
        (fun f hf => hrequests f (Or.inr (by simpa using hf))) with ⟨hafter, hstays, hserved⟩
      rw [after_concat]
      refine ⟨hafter, hstays, ?_⟩
      rcases hserved with ⟨failed, news, v, hcourse, heq, -⟩
      rw [heq]
      exact hcourse.steady hsteady

theorem addEach_of_listed {before later : List (FileId × Path)} {f : FileId × Path}
    (h : (addEach b w before).2.Lists f.1 f.2) :
    addEach b w (before ++ f :: later) = addEach b w (before ++ later) := by
  induction before generalizing w with
  | nil =>
      replace h : w.Lists f.1 f.2 := h
      rw [List.nil_append, List.nil_append, addEach, addOne_of_lists h]
      rfl
  | cons file rest ih =>
      replace h : (addEach b (addOne b w file.1 file.2).2 rest).2.Lists f.1 f.2 := h
      rw [List.cons_append, List.cons_append, addEach, addEach]
      dsimp only
      rw [ih h]

/--
After any requests, in which no two ids stand with one path, the tables agree: ids and paths
are inverse, exactly the directories with watched files are counted, with their number, and
no file is watched and unwatchable. Exactly these directories are watched by the backend.
Every request was a course of moves, with at most one notification of what failed in it.
Files that are listed already change nothing when they are added again.
-/
theorem watch_set_is_represented (b : Backend) (requests : List WatchRequest)
    (hdistinct : Distinct (requests.flatMap WatchRequest.added)) :
    (after b requests).Coherent ∧
      (forall directory, InForce b (after b requests).calls directory ↔
        (after b requests).directories.contains directory = true) ∧
      (forall earlier request later, requests = earlier ++ request :: later ->
        Served b (after b earlier) (after b (earlier ++ [request])) request) ∧
      forall before f later, (addEach b (after b requests) before).2.Lists f.1 f.2 ->
        (after b requests).add b (before ++ f :: later) =
          (after b requests).add b (before ++ later) := by
  rcases after_invariant b (fun f hf => hf) hdistinct with ⟨hcoherent, -, hsteady⟩
  refine ⟨hcoherent, ?_, ?_, ?_⟩
  · intro directory
    rw [hsteady directory, hcoherent.contains_iff]
  · rintro earlier request later rfl
    have hsub : forall f, f ∈ earlier.flatMap WatchRequest.added ->
        f ∈ (earlier ++ request :: later).flatMap WatchRequest.added := by
      intro f hf
      rw [List.flatMap_append]
      exact List.mem_append_left _ hf
    rcases after_invariant b hsub hdistinct with ⟨hbefore, hwithin, -⟩
    rw [after_concat]
    refine (serve_moves hbefore hwithin hdistinct b ?_).2.2
    intro f hf
    exact List.mem_flatMap.mpr
      ⟨request, List.mem_append_right _ List.mem_cons_self, hf⟩
  · intro before f later hlists
    rw [add, add, addEach_of_listed hlists]

/-- Files of two directories, of which one cannot be watched, go and come again. -/
def deniedRequests : List WatchRequest :=
  [.add [(⟨1⟩, .ofString "/w/a"), (⟨2⟩, .ofString "/w/b"), (⟨3⟩, .ofString "/d/c")],
    .remove [⟨1⟩, ⟨2⟩],
    .add [(⟨3⟩, .ofString "/d//c"), (⟨4⟩, .ofString "/d/e")]]

theorem denied_directory_is_represented :
    Distinct (deniedRequests.flatMap WatchRequest.added) ∧
      (after (.denying [.ofString "/d"]) deniedRequests).Coherent ∧
      ¬ InForce (.denying [.ofString "/d"])
        (after (.denying [.ofString "/d"]) deniedRequests).calls (Path.ofString "/w").components ∧
      (after (.denying [.ofString "/d"]) deniedRequests).calls =
        [.watch (.ofString "/w"), .watch (.ofString "/d"), .unwatch (.ofString "/w"),
          .watch (.ofString "/d")] ∧
      (after (.denying [.ofString "/d"]) deniedRequests).outbox =
        [.removed [⟨3⟩], .removed [⟨4⟩]] := by
  have hdistinct : Distinct (deniedRequests.flatMap WatchRequest.added) := by
    unfold Distinct
    decide +kernel
  rcases watch_set_is_represented (.denying [.ofString "/d"]) deniedRequests hdistinct with
    ⟨hcoherent, hforce, -⟩
  refine ⟨hdistinct, hcoherent, ?_, by decide +kernel, by decide +kernel⟩
  rw [hforce]
  decide +kernel

end Watcher
end SymbolIndex
