import SymbolIndex.Proofs.Overlay
import SymbolIndex.Proofs.Path.Resolution
import SymbolIndex.Proofs.PathBook

/-!
# Normal forms of joined paths

A path that stands in front of another one may be put into its normal form first. The
names of the front are then the same, and of the `..` that lead up from it an even number
is gone, so that the whole still leads up an odd number of times or an even one. Books and
overlays know a path by its normal form only, and so make no difference either.
-/

namespace SymbolIndex
namespace Path

variable {p q : Path}

theorem isAbsolute_normalize (p : Path) : p.normalize.isAbsolute = p.isAbsolute := by
  rw [normalize_eq, isAbsolute_spelled]

theorem route_normalize (p : Path) : p.normalize.route = ⟨p.route.ups % 2, p.route.names⟩ := by
  rw [normalize_eq, route_spelled]

theorem join_of_isAbsolute (p : Path) (h : q.isAbsolute = true) : p.join q = q := by
  rw [join, if_pos h]

theorem isAbsolute_join_of_relative (p : Path) (h : q.isAbsolute = false) :
    (p.join q).isAbsolute = p.isAbsolute := by
  cases hp : p.isAbsolute with
  | true => exact isAbsolute_join hp h
  | false =>
      unfold join
      rw [if_neg (by rw [h]; exact Bool.false_ne_true)]
      cases hbytes : p.bytes with
      | nil =>
          rw [if_pos (by rw [isEmpty, hbytes]; rfl)]
          exact h
      | cons b rest =>
          rw [isAbsolute, hbytes, List.head?_cons] at hp
          split
          · exact hp
          · exact hp

theorem normalize_congr (habsolute : p.isAbsolute = q.isAbsolute)
    (hnames : p.route.names = q.route.names) (hups : p.route.ups % 2 = q.route.ups % 2) :
    p.normalize = q.normalize := by
  rw [normalize_eq, normalize_eq q, habsolute, hnames, hups]

theorem normalize_join_normalize (p q : Path) :
    (p.normalize.join q).normalize = (p.join q).normalize := by
  cases hq : q.isAbsolute with
  | true => rw [join_of_isAbsolute _ hq, join_of_isAbsolute _ hq]
  | false =>
      apply normalize_congr
      · rw [isAbsolute_join_of_relative _ hq, isAbsolute_join_of_relative _ hq,
          isAbsolute_normalize]
      · rw [route_join hq, route_join hq, route_normalize]
        rfl
      · rw [route_join hq, route_join hq, route_normalize]
        exact Nat.mod_add_mod _ 2 _

/-!
# Paths that are taken for the same
-/

/-- Two paths that no book and no overlay tells apart. -/
structure Interchangeable (p q : Path) : Prop where
  found : forall (b : PathBook) (s : Store), b.find? s p = b.find? s q
  interned : forall (b : PathBook) (s : Store), b.intern s p = b.intern s q
  contained : forall o : Overlay, o.contains p = o.contains q
  contents : forall o : Overlay, o.content? p = o.content? q
  statuses : forall o : Overlay, o.status? p = o.status? q
  set : forall (o : Overlay) (content : String), o.insert p content = o.insert q content
  erased : forall o : Overlay, o.erase p = o.erase q

theorem interchangeable_of_normalize_eq (h : p.normalize = q.normalize) :
    Interchangeable p q where
  found := fun b s => b.find?_congr s h
  interned := fun b s => b.intern_congr s h
  contained := fun o => o.contains_congr h
  contents := fun o => congrArg (Option.map _) (o.get?_congr h)
  statuses := fun o => congrArg (Option.map _) (o.get?_congr h)
  set := fun o content => o.insert_congr h content
  erased := fun o => o.erase_congr h

/--
Normal forms are final, and the front of a path may be normalized before the rest is
joined to it: the path has the same normal form then, and it is found, interned and looked
up in generated contents alike.
-/
theorem normal_form_of_the_front_is_enough (p q : Path) :
    p.normalize.normalize = p.normalize ∧
      (p.join q).normalize = (p.normalize.join q).normalize ∧
      Interchangeable (p.join q) (p.normalize.join q) ∧ Interchangeable p p.normalize := by
  have hidempotent := normalize_normalize p
  have hjoined := (normalize_join_normalize p q).symm
  constructor
  · exact hidempotent
  · constructor
    · exact hjoined
    · constructor
      · exact interchangeable_of_normalize_eq hjoined
      · exact interchangeable_of_normalize_eq hidempotent.symm

/-- A `..` after the front takes away the same name, and after an empty front it is kept. -/
example : ((ofString "/a/./b").join (ofString "../c")).normalize = ofString "/a/c" ∧
    ((ofString "a/..").join (ofString "../c")).normalize = ofString "../c" := by decide +kernel

end Path
end SymbolIndex
