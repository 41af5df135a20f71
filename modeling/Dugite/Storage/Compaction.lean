import Dugite.Lib.FinMap
import Dugite.Lib.Simulation

/-!
# Compaction of the log-structured store

The loop `maybe_compact` (`dugite-lsm/src/tree.rs`) merges the runs of the first level that has
`size_ratio` of them into one run of the next level (`compaction.rs`). What merging, writing and
reading a run compute is left open here. A compaction may fill the next level in turn and may add
a level, but it always lowers the number of runs, so that the loop ends.
-/

namespace Dugite.Lsm

open List Simulation

structure Level where
  number : Nat
  runIds : List Nat

variable {Run Entry : Type} {l : Level} {levels : List Level} {i : Nat}

structure Tree (Run : Type) where
  levels : List Level
  runs : FinMap Nat Run
  nextRunId : Nat

/-- What a compaction does with runs: read one, merge the entries of several (with their sequence
numbers, dropping tombstones or not), write the result. -/
structure RunFiles (Run Entry : Type) where
  scanAll : Run → List Entry
  mergeEntries : List (Nat × List Entry) → Bool → List Entry
  write : Nat → List Entry → Run

section
variable (levels : List Level)

/-- The first level with at least `sizeRatio` runs. -/
def findCompactionLevel (sizeRatio : Nat) : Option Nat :=
  levels.findIdx? (sizeRatio ≤ ·.runIds.length)

/-- Add empty levels until `target` is one. -/
def ensureLevel (target : Nat) : List Level :=
  levels ++ (range' levels.length (target + 1 - levels.length)).map fun n => ⟨n, []⟩

/-- Clear a level; on the next, remove the runs `oldIds` and add `newIds`. -/
def replaceRuns (i : Nat) (oldIds newIds : List Nat) : List Level :=
  (levels.modify i fun l => { l with runIds := [] }).modify (i + 1) fun l =>
    { l with runIds := l.runIds.filter (· ∉ oldIds) ++ newIds }

end

variable (files : RunFiles Run Entry)

/-- Merge the runs of a level into one run of the next, together with those that are there if no
level below has any. -/
def compactLevel (t : Tree Run) (levelIdx : Nat) : Tree Run :=
  let target := levelIdx + 1
  let levels := ensureLevel t.levels target
  let runIds (i : Nat) := (levels[i]?.map (·.runIds)).getD []
  let isLast := target == levels.length - 1 ||
    target + 1 < levels.length && (levels.drop (target + 1)).all (·.runIds.isEmpty)
  let includeTarget := isLast && !(runIds target).isEmpty
  let targetIds := if includeTarget then runIds target else []
  let sourceIds := runIds levelIdx
  let inputs := (targetIds ++ sourceIds).zipIdx.filterMap fun (id, seq) =>
    (t.runs.lookup id).map fun run => (seq, files.scanAll run)
  let merged := files.mergeEntries inputs (isLast && includeTarget)
  let newIds := if merged.isEmpty then [] else [t.nextRunId]
  { levels := replaceRuns levels levelIdx targetIds newIds
    runs := newIds.foldl (fun runs id => runs.insert id (files.write id merged))
      (t.runs.eraseAll (targetIds ++ sourceIds))
    nextRunId := t.nextRunId + 1 }

/-- One round of `maybe_compact`. -/
def compactStep (sizeRatio : Nat) (t : Tree Run) : Tree Run ⊕ Tree Run :=
  match findCompactionLevel t.levels sizeRatio with
  | some levelIdx => .inl (compactLevel files t levelIdx)
  | none => .inr t

/-- The number of runs on all levels. -/
def numRuns (levels : List Level) : Nat := (levels.map (·.runIds.length)).sum

theorem numRuns_modify (f : Level → Level) (h : levels[i]? = some l) :
    numRuns (levels.modify i f) + l.runIds.length = numRuns levels + (f l).runIds.length := by
  induction levels generalizing i with
  | nil => cases h
  | cons l' levels ih =>
    cases i with
    | zero =>
      cases h
      simp only [numRuns, modify_zero_cons, map_cons, sum_cons]
      omega
    | succ i =>
      have := ih h
      simp only [numRuns, modify_succ_cons, map_cons, sum_cons] at *
      omega

theorem numRuns_replaceRuns (h : levels[i]? = some l)
    (hi : i + 1 < levels.length) (oldIds newIds : List Nat) :
    numRuns (replaceRuns levels i oldIds newIds) + l.runIds.length ≤
      numRuns levels + newIds.length := by
  have hcleared := numRuns_modify (fun l => { l with runIds := [] }) h
  have htarget : (levels.modify i fun l => { l with runIds := [] })[i + 1]? =
      some levels[i + 1] := by
    rw [getElem?_modify, getElem?_eq_getElem hi]
    simp
  have hadded := numRuns_modify (fun l =>
    { l with runIds := l.runIds.filter (· ∉ oldIds) ++ newIds }) htarget
  have hkept := length_filter_le (· ∉ oldIds) levels[i + 1].runIds
  simp only [length_append, length_nil, replaceRuns] at *
  omega

/-- A compaction takes the runs of its level away and adds at most one. -/
theorem numRuns_compactLevel {t : Tree Run} (h : t.levels[i]? = some l) :
    numRuns (compactLevel files t i).levels + l.runIds.length ≤ numRuns t.levels + 1 := by
  have hsame : numRuns (ensureLevel t.levels (i + 1)) = numRuns t.levels := by
    simp [numRuns, ensureLevel, Function.comp_def]
  have hsource : (ensureLevel t.levels (i + 1))[i]? = some l := by
    rw [ensureLevel, getElem?_append_left (List.getElem?_eq_some_iff.1 h).1, h]
  have hlength : i + 1 < (ensureLevel t.levels (i + 1)).length := by
    simp only [ensureLevel, length_append, length_map, length_range']
    omega
  have hone : ∀ merged : List Entry, (if merged.isEmpty then [] else [t.nextRunId]).length ≤ 1 := by
    intro merged
    split <;> simp
  rw [← hsame]
  exact (numRuns_replaceRuns hsource hlength _ _).trans (Nat.add_le_add_left (hone _) _)

/-- The loop of compactions ends, with fewer than `sizeRatio` runs on every level. -/
theorem compaction_balanced (files : RunFiles Run Entry) {sizeRatio : Nat} (hratio : 2 ≤ sizeRatio)
    (t : Tree Run) :
    ∃ t', Halts (compactStep files sizeRatio) t t' ∧
      ∀ l ∈ t'.levels, l.runIds.length < sizeRatio := by
  induction hm : numRuns t.levels using Nat.strongRecOn generalizing t with
  | _ m ih =>
    cases hfind : findCompactionLevel t.levels sizeRatio with
    | none =>
      refine ⟨t, ⟨1, by rw [run, compactStep, hfind]; rfl⟩, ?_⟩
      simpa [findCompactionLevel] using hfind
    | some i =>
      obtain ⟨hi, hl, -⟩ := findIdx?_eq_some_iff_getElem.1 hfind
      have hless := numRuns_compactLevel files (getElem?_eq_getElem hi)
      rw [decide_eq_true_iff] at hl
      obtain ⟨t', hhalts, hbalanced⟩ := ih _ (by omega) (compactLevel files t i) rfl
      refine ⟨t', (halts_of_inl ?_).2 hhalts, hbalanced⟩
      rw [compactStep, hfind]

theorem two_runs_balanced : ∃ t', Halts (compactStep (⟨id, fun inputs _ => inputs.flatMap (·.2),
    fun _ entries => entries⟩ : RunFiles (List Nat) Nat) 2)
      ⟨[⟨0, [0, 1]⟩], FinMap.insertAll [(0, [7]), (1, [8])] ∅, 2⟩ t' ∧
        ∀ l ∈ t'.levels, l.runIds.length < 2 :=
  compaction_balanced _ le_rfl _

end Dugite.Lsm
