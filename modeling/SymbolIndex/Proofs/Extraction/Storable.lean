import SymbolIndex.Collector
import SymbolIndex.Proofs.Extraction.References
import SymbolIndex.Proofs.Storage.Answers

/-!
# What is collected can be stored

Every index that a location carries was looked up in the symbols that were there at the
time, and symbols only come to these. So storage, whose one complaint about results is a
location without a symbol, takes what is collected from a tree.
-/

namespace SymbolIndex
namespace Extraction
namespace Source

open SyntaxTree

variable {s : Source} {root : SyntaxTree} {l : CollectedLocation}

theorem mem_locations_collect : l ∈ (s.collect root).locations ↔
    l ∈ (s.defined root).locations ∨ l ∈ s.references root := by
  rw [collect_eq, List.mem_append]

theorem nodup_usrs_collect : (s.collect root).usrs.Nodup := by
  rw [collect_eq]
  exact nodup_usrs_defineAll _

theorem symbol_lt_of_mem_collect (h : l ∈ (s.collect root).locations) :
    l.symbol < (s.collect root).symbols.length := by
  have hkey : exists usr, (s.collect root).usrs[l.symbol]? = some usr := by
    rcases mem_locations_collect.mp h with hdefinition | hreference
    · rcases marks_of_mem_locations hdefinition with ⟨d, -, hmarks⟩
      rw [collect_eq]
      exact ⟨d.usr, Results.getElem?_usrs_symbolIndex hmarks.symbol⟩
    · rcases exists_left_of_forall₂ forall₂_references hreference with ⟨c, -, hat⟩
      rcases hat.symbol with ⟨target, n, -, -, hkey⟩
      exact ⟨_, hkey⟩
  rcases hkey with ⟨usr, husr⟩
  have hlt := (List.getElem?_eq_some_iff.mp husr).1
  rw [Results.usrs, List.length_map] at hlt
  exact hlt

theorem exists_definition_of_lt {i : Nat} (h : i < (s.collect root).symbols.length) :
    exists l, l ∈ (s.collect root).locations ∧ l.symbol = i ∧ l.role = .definition := by
  rw [collect_eq] at h
  have hlt : i < (s.defined root).usrs.length := by
    rw [Results.usrs, List.length_map]
    exact h
  obtain ⟨usr, husr⟩ : exists usr, (s.defined root).usrs[i]? = some usr :=
    ⟨_, List.getElem?_eq_getElem hlt⟩
  have hindex := Results.symbolIndex_of_getElem? (nodup_usrs_defineAll _) husr
  -- the key came up with a definition, which has left a location
  have hmem := List.mem_of_getElem? husr
  rw [Source.defined, usrs_defineAll, List.mem_eraseDups] at hmem
  rcases List.mem_map.mp hmem with ⟨d, hd, rfl⟩
  rcases exists_marks_of_mem hd with ⟨l, hl, hmarks⟩
  refine ⟨l, mem_locations_collect.mpr (Or.inl hl), ?_, hmarks.role⟩
  exact Option.some.inj (hmarks.symbol.symm.trans hindex)

theorem exists_node_of_mem_collect (h : l ∈ (s.collect root).locations) :
    exists t, t ∈ root.nodes ∧ l.line = position t.info.row ∧ l.column = position t.info.column := by
  rcases mem_locations_collect.mp h with hdefinition | hreference
  · rcases marks_of_mem_locations hdefinition with ⟨d, hd, hmarks⟩
    rcases List.mem_map.mp hd with ⟨a, ha, rfl⟩
    exact ⟨a.2.node, mem_nodes_of_accepts (mem_accepted.mp ha), hmarks.line, hmarks.column⟩
  · rcases exists_left_of_forall₂ forall₂_references hreference with ⟨c, hc, hat⟩
    exact ⟨c.2, mem_nodes_of_node? (mem_cited.mp hc).1, hat.line, hat.column⟩

theorem one_le_position {n : Nat} (h : n < 2 ^ 32 - 1) : 1 ≤ position n := by
  rw [UInt32.le_iff_toNat_le, toNat_position h]
  exact Nat.le_add_left 1 n

end Source
end Extraction

/-- Results that storage takes and that say where each symbol comes from. -/
structure Results.Storable (r : Results) : Prop where
  distinct : (r.symbols.map (·.usr)).Nodup
  named : forall l, l ∈ r.locations -> l.symbol < r.symbols.length
  defined : forall i, i < r.symbols.length ->
    exists l, l ∈ r.locations ∧ l.symbol = i ∧ l.role = .definition
  counted : forall l, l ∈ r.locations -> 1 ≤ l.line ∧ 1 ≤ l.column

namespace Extraction

open Source

theorem storable_collect (s : Source) {root : SyntaxTree} (hwithin : root.Within (2 ^ 32 - 1)) :
    (s.collect root).Storable where
  distinct := nodup_usrs_collect
  named := fun _ hl => symbol_lt_of_mem_collect hl
  defined := fun _ hi => exists_definition_of_lt hi
  counted := by
    intro l hl
    rcases exists_node_of_mem_collect hl with ⟨t, ht, hline, hcolumn⟩
    rw [hline, hcolumn]
    exact ⟨one_le_position (hwithin t ht).1, one_le_position (hwithin t ht).2⟩

end Extraction

namespace Storage

open Store

theorem fst_deliver (t : Storage) (d : Delivery) :
    (t.deliver d).1 = (t.applyResults d.task d.status d.results).map Prod.fst := by
  rw [deliver]
  cases t.applyResults d.task d.status d.results <;> rfl

theorem applyResults_storable {r : Results} (h : r.Storable) (t : Storage) (task : Task)
    (status : FileStatus) :
    (forall failure, t.applyResults task status r ≠ .error failure) ∧
      (t.store.Assigned task ->
        (t.applyResults task status r).map Prod.fst = .ok .unchanged ∨
        (t.applyResults task status r).map Prod.fst =
          .ok (.applied r.symbols.length r.locations.length)) := by
  have hplain := (strayLocation?_eq_none_iff r).mpr h.named
  have hanswer := fst_deliver t ⟨task, status, r⟩
  constructor
  · intro failure hfailure
    rw [hfailure] at hanswer
    rcases (answer_eq_error_iff t ⟨task, status, r⟩ failure).mp hanswer with ⟨-, -, l, hl, -⟩
    rw [← strayLocation?_eq_some_iff, hplain] at hl
    cases hl
  · intro hassigned
    rw [← hanswer]
    by_cases hsame : t.store.Same task r
    · exact Or.inl ((answer_eq_unchanged_iff t _).mpr ⟨hassigned, hsame⟩)
    · exact Or.inr ((answer_eq_applied_iff t _ _ _).mpr ⟨hassigned, hsame, h.named, rfl, rfl⟩)

end Storage

namespace Collected

open Extraction.Source

/--
What is collected from a source text is storable, whatever tree the grammar delivers.
Storage never fails on it, and takes it for a file of the task's part.
-/
theorem storable_ofSource {grammar : Grammar} {language : Language} {source : String} {root : SyntaxTree}
    (htree : grammar language source = some root) (hwithin : root.Within (2 ^ 32 - 1)) (p : Path) :
    exists r, ofSource grammar language p source = .results r ∧ r.Storable ∧
      forall (t : Storage) (task : Task) (status : FileStatus),
        (forall failure, t.applyResults task status r ≠ .error failure) ∧
        (t.store.Assigned task ->
          (t.applyResults task status r).map Prod.fst = .ok .unchanged ∨
          (t.applyResults task status r).map Prod.fst =
            .ok (.applied r.symbols.length r.locations.length)) := by
  have hstorable := Extraction.storable_collect ⟨language, Text.bytesOf source⟩ hwithin
  refine ⟨_, ?_, hstorable, fun t task status => t.applyResults_storable hstorable task status⟩
  rw [ofSource, htree]

/-- A store with one file, which is assigned to a part. -/
def oneMember : Store :=
  { Store.empty with
    parts := Table.empty.insert ⟨"app"⟩ (.written [])
    members := Table.empty.insert ⟨1⟩ ⟨"app"⟩ }

theorem storable_ofSource_nested :
    nestedTree.Within (2 ^ 32 - 1) ∧
      exists r, ofSource (fun _ _ => some nestedTree) .python (Path.ofString "/a.py")
          "def f(): A\nclass A:\n    def f(self): f\n" = .results r ∧ r.Storable ∧
        exists (t : Storage) (task : Task), t.store.Assigned task ∧
          forall status, exists outcome, (t.applyResults task status r).map Prod.fst = .ok outcome ∧
            outcome ≠ .stale := by
  have hwithin : nestedTree.Within (2 ^ 32 - 1) := by decide
  rcases @storable_ofSource (fun _ _ => some nestedTree) .python
      "def f(): A\nclass A:\n    def f(self): f\n" nestedTree rfl hwithin (Path.ofString "/a.py") with
    ⟨r, hr, hstorable, hstored⟩
  have hassigned : oneMember.Assigned ⟨⟨1⟩, ⟨"app"⟩, []⟩ := ⟨by decide, by decide⟩
  refine ⟨hwithin, r, hr, hstorable, Storage.ofStore oneMember, _, hassigned, fun status => ?_⟩
  rcases (hstored (Storage.ofStore oneMember) _ status).2 hassigned with hunchanged | happlied
  · exact ⟨_, hunchanged, by decide⟩
  · exact ⟨_, happlied, by simp⟩

end Collected
end SymbolIndex
