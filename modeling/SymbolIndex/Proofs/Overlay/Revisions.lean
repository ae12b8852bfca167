import SymbolIndex.Proofs.Overlay.Requests

/-!
# Statuses tell contents apart

The revision of a content is the number of changes up to the one that set it. No two
contents of an overlay ever have the same one, whatever is removed and set again in
between. A status has it in a word of 64 bits: in a build that checks its arithmetic it
never outgrows the word, in one that does not it may begin again.
-/

namespace SymbolIndex
namespace Overlay

variable {c : Counting} {o o' : Overlay} {r : OverlayRequest} {answer : Option Bool}
  {p q : Path} {file : GeneratedFile} {requests : List OverlayRequest}

/-!
# Revisions
-/

/-- Every entry has a revision of its own, none larger than the count of changes. -/
structure Stamped (c : Counting) (o : Overlay) : Prop where
  positive : forall p file, o.get? p = some file -> 0 < file.revision
  counted : forall p file, o.get? p = some file -> file.revision ≤ o.revision
  distinct : forall p q file other, o.get? p = some file -> o.get? q = some other ->
    file.revision = other.revision -> p.normalize = q.normalize
  room : c = .checked -> o.revision < UInt64.size

theorem stamped_empty (c : Counting) : empty.Stamped c where
  positive := nofun
  counted := nofun
  distinct := nofun
  room := fun _ => Nat.zero_lt_succ _

theorem Stamped.insert (h : o.Stamped c) {content : String} (hholds : o.holds p content = false)
    (hroom : c = .checked -> o.revision + 1 ≠ UInt64.size) : (o.insert p content).Stamped c := by
  have hrevision : (o.insert p content).revision = o.revision + 1 := by
    rw [insert_of_not_holds hholds]
  have hcases : forall q file, (o.insert p content).get? q = some file ->
      p.normalize = q.normalize ∧ file.revision = o.revision + 1 ∨
        o.get? q = some file ∧ 0 < file.revision ∧ file.revision ≤ o.revision := by
    intro q file hfile
    rw [get?_insert_of_not_holds hholds] at hfile
    split at hfile
    · rename_i hsame
      cases hfile
      exact Or.inl ⟨hsame, hrevision⟩
    · exact Or.inr ⟨hfile, h.positive q file hfile, h.counted q file hfile⟩
  constructor
  · intro q file hfile
    rcases hcases q file hfile with ⟨-, hnew⟩ | ⟨-, hpositive, -⟩
    · omega
    · exact hpositive
  · intro q file hfile
    rcases hcases q file hfile with ⟨-, hnew⟩ | ⟨-, -, hcounted⟩
    · omega
    · omega
  · intro q q' file other hfile hother hequal
    rcases hcases q file hfile with ⟨hq, hnew⟩ | ⟨hfile, -, hcounted⟩
    · rcases hcases q' other hother with ⟨hq', -⟩ | ⟨-, -, hcounted⟩
      · exact hq.symm.trans hq'
      · omega
    · rcases hcases q' other hother with ⟨-, hnew⟩ | ⟨hother, -, -⟩
      · omega
      · exact h.distinct q q' file other hfile hother hequal
  · intro hchecked
    have := h.room hchecked
    have := hroom hchecked
    omega

theorem Stamped.erase (h : o.Stamped c) (p : Path) : (o.erase p).Stamped c := by
  have hold : forall q file, (o.erase p).get? q = some file -> o.get? q = some file := by
    intro q file hfile
    rw [get?_erase] at hfile
    split at hfile
    · cases hfile
    · exact hfile
  constructor
  · exact fun q file hfile => h.positive q file (hold q file hfile)
  · exact fun q file hfile => h.counted q file (hold q file hfile)
  · exact fun q q' file other hfile hother =>
      h.distinct q q' file other (hold q file hfile) (hold q' other hother)
  · exact h.room

theorem Stamped.of_served (h : o.Stamped c) (hserved : Served c o r answer o') :
    o'.Stamped c := by
  cases hserved with
  | held _ => exact h
  | broken _ _ _ => exact h
  | set hholds hroom => exact h.insert hholds hroom
  | removed => exact h.erase _

theorem Stamped.after (h : o.Stamped c) (requests : List OverlayRequest) :
    (o.after c requests).Stamped c := by
  induction requests generalizing o with
  | nil => exact h
  | cons r rest ih => exact ih (h.of_served (served c o r))

theorem eq_of_ofNat_eq {a b : Nat} (h : Int64.ofNat a = Int64.ofNat b) (ha : 0 < a)
    (ha' : a ≤ UInt64.size) (hb : 0 < b) (hb' : b ≤ UInt64.size) : a = b := by
  have hword := congrArg (fun word => word.toUInt64.toNat) h
  simp only [Int64.toUInt64_ofNat', UInt64.toNat_ofNat'] at hword
  rw [UInt64.size] at ha' hb'
  omega

/-!
# Between two moments
-/

theorem Served.revision_le (h : Served c o r answer o') : o.revision ≤ o'.revision := by
  cases h with
  | held _ => exact Nat.le_refl _
  | broken _ _ _ => exact Nat.le_refl _
  | set hholds _ => rw [insert_of_not_holds hholds]; exact Nat.le_succ _
  | removed => exact Nat.le_refl _

theorem Served.get?_of_le (h : Served c o r answer o') (hfile : o'.get? q = some file)
    (hold : file.revision ≤ o.revision) :
    o.get? q = some file ∧
      (r.path.normalize = q.normalize -> o' = o) := by
  cases h with
  | held _ => exact ⟨hfile, fun _ => rfl⟩
  | broken _ _ _ => exact ⟨hfile, fun _ => rfl⟩
  | @set p content hholds _ =>
      rw [get?_insert_of_not_holds hholds] at hfile
      split at hfile
      · cases hfile
        rw [insert_of_not_holds hholds] at hold
        exact absurd hold (Nat.not_succ_le_self _)
      · rename_i hother
        exact ⟨hfile, fun hsame => absurd hsame hother⟩
  | @removed p =>
      rw [get?_erase] at hfile
      split at hfile
      · cases hfile
      · rename_i hother
        exact ⟨hfile, fun hsame => absurd hsame hother⟩

/--
An entry stays as it is: it is there after every one of some requests, and those that name
its path change nothing.
-/
structure Stays (c : Counting) (o : Overlay) (q : Path) (requests : List OverlayRequest) :
    Prop where
  entry : forall earlier later, requests = earlier ++ later ->
    (o.after c earlier).get? q = o.get? q
  untouched : forall earlier r later, requests = earlier ++ r :: later ->
    r.path.normalize = q.normalize -> (o.after c earlier).serve c r = o.after c earlier

theorem revision_le_after (c : Counting) (o : Overlay) (requests : List OverlayRequest) :
    o.revision ≤ (o.after c requests).revision := by
  induction requests generalizing o with
  | nil => exact Nat.le_refl _
  | cons r rest ih => exact Nat.le_trans (served c o r).revision_le (ih _)

/-- An entry that is as old as an overlay was there before, and no request touched it. -/
theorem stays_of_le (hfile : (o.after c requests).get? q = some file)
    (hold : file.revision ≤ o.revision) :
    o.get? q = some file ∧ o.Stays c q requests := by
  induction requests generalizing o with
  | nil =>
      refine ⟨hfile, ?_, ?_⟩
      · intro earlier later hsplit
        rw [(List.append_eq_nil_iff.mp hsplit.symm).1]
        rfl
      · intro earlier r later hsplit
        cases (List.append_eq_nil_iff.mp hsplit.symm).2
  | cons r rest ih =>
      have hstep := served c o r
      rcases ih hfile (Nat.le_trans hold hstep.revision_le) with ⟨hnext, hstays⟩
      rcases hstep.get?_of_le hnext hold with ⟨hnow, hfirst⟩
      refine ⟨hnow, ?_, ?_⟩
      · intro earlier later hsplit
        cases earlier with
        | nil => rfl
        | cons r' earlier =>
            rcases List.cons_eq_cons.mp hsplit with ⟨rfl, hrest⟩
            exact (hstays.entry earlier later hrest).trans (hnext.trans hnow.symm)
      · intro earlier r' later hsplit hpath
        cases earlier with
        | nil =>
            rcases List.cons_eq_cons.mp hsplit with ⟨rfl, -⟩
            exact hfirst hpath
        | cons first earlier =>
            rcases List.cons_eq_cons.mp hsplit with ⟨rfl, hrest⟩
            exact hstays.untouched earlier r' later hrest hpath

theorem after_append (c : Counting) (o : Overlay) (before between : List OverlayRequest) :
    o.after c (before ++ between) = (o.after c before).after c between :=
  List.foldl_append

theorem exists_of_status? {status : FileStatus} (h : o.status? p = some status) :
    exists file, o.get? p = some file ∧ Int64.ofNat file.revision = status.modified := by
  rcases Option.map_eq_some_iff.mp h with ⟨file, hfile, hstatus⟩
  exact ⟨file, hfile, congrArg FileStatus.modified hstatus⟩

theorem Stamped.revision_le (h : o.Stamped c) (hcount : c = .wrapping -> o.revision ≤ UInt64.size) :
    o.revision ≤ UInt64.size := by
  cases c with
  | checked => exact Nat.le_of_lt (h.room rfl)
  | wrapping => exact hcount rfl

/--
An overlay answers as the map of the contents that were set and not removed. Statuses of two
moments are equal only when the paths have one normal form and its content stayed as it was
in between, unless the count of changes began again.
-/
theorem statuses_tell_contents_apart (c : Counting) (requests : List OverlayRequest) :
    (empty.after c requests).AnswersAs c (.ofRequests (empty.answered c requests)) ∧
      forall before between p q status, requests = before ++ between ->
        (c = .wrapping -> (empty.after c requests).revision ≤ UInt64.size) ->
        (empty.after c before).status? p = some status ->
        (empty.after c requests).status? q = some status ->
        p.normalize = q.normalize ∧
          (empty.after c before).content? p = (empty.after c requests).content? q ∧
          (empty.after c before).Stays c q between := by
  constructor
  · exact (has_empty.after requests).answersAs c
  · intro before between p q status hsplit hcount hearlier hlater
    rw [hsplit, after_append] at hcount hlater ⊢
    have hstamped := (stamped_empty c).after before
    have hstamped' := hstamped.after between
    rcases exists_of_status? hearlier with ⟨file, hfile, hword⟩
    rcases exists_of_status? hlater with ⟨other, hother, hword'⟩
    have hroom := hstamped'.revision_le hcount
    have hfile_le := hstamped.counted p file hfile
    have hequal : file.revision = other.revision :=
      eq_of_ofNat_eq (hword.trans hword'.symm) (hstamped.positive p file hfile)
        (Nat.le_trans hfile_le (Nat.le_trans (revision_le_after c _ between) hroom))
        (hstamped'.positive q other hother)
        (Nat.le_trans (hstamped'.counted q other hother) hroom)
    rcases stays_of_le hother (hequal ▸ hfile_le) with ⟨hthere, hstays⟩
    have hpath := hstamped.distinct p q file other hfile hthere hequal
    refine ⟨hpath, ?_, hstays⟩
    rw [content?, content?, get?_congr _ hpath, hthere, hother]

/-- Another spelling, a content that is there already and another file change no status. -/
theorem status_through_other_requests :
    Path.normalize (.ofString "/g/a") = Path.normalize (.ofString "/g/./a") ∧
      (empty.after .wrapping [.insert (.ofString "/g/a") "x"]).Stays .wrapping
        (.ofString "/g/./a") [.insert (.ofString "//g/a") "x", .insert (.ofString "/g/b") "y"] := by
  rcases (statuses_tell_contents_apart .wrapping
    [.insert (.ofString "/g/a") "x", .insert (.ofString "//g/a") "x",
      .insert (.ofString "/g/b") "y"]).2 [.insert (.ofString "/g/a") "x"]
    [.insert (.ofString "//g/a") "x", .insert (.ofString "/g/b") "y"]
    (.ofString "/g/a") (.ofString "/g/./a") ⟨1, 1⟩ rfl (fun _ => by decide +kernel)
    (by decide +kernel) (by decide +kernel) with ⟨hpath, -, hstays⟩
  exact ⟨hpath, hstays⟩

/-- The same content, set again after it was removed, has another status. -/
example : (empty.after .checked [.insert (.ofString "/g/a") "x", .remove (.ofString "/g/a"),
    .insert (.ofString "/g/a") "x"]).status? (.ofString "/g/a") = some ⟨1, 2⟩ := by
  decide +kernel

end Overlay
end SymbolIndex
