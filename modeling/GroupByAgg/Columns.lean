import Mathlib.Algebra.BigOperators.Group.List

/-!
# The columns of `_execute_agg`'s result

For a 2-D output, `_execute_agg` concatenates the aggregated frames into `result` and then gives it the target
columns `col_value`. When `col_value` is a MultiIndex that repeats a label, `reindex` cannot be used, and one of two
branches rebuilds the columns: with pandas ≥ 2.1 it concatenates `result[c]` for `c` in
`col_value.drop_duplicates()`, otherwise it keeps the columns `result.columns.duplicated()` marks and concatenates
`result[c]` for `c` in `col_value`; either way the columns are then relabelled `col_value`. `result[c]` selects every
column labelled `c`.

A result is *rearranged* when its columns are those of `col_value`, in any order, with the data of a label the same
wherever it occurs (`result ~ col_value.map (c, data c)`).

* the newer branch moves every label's columns to its first occurrence (`reconcileNew_rearranged`), so it is
  right exactly when the equal labels of `col_value` are adjacent;
* the older branch is right when every label occurs exactly twice and raises `KeyError` when one occurs once
  (`reconcileOld_rearranged`);
* with `col_value = [(a, sum), (a, mean), (a, sum)]` the newer branch puts the data of `sum` under the label `mean`
  and the older one raises (`reconcile_repeated_labels_misplaced`).
-/

namespace GroupByAgg

/-- What the reconciliation raises: `KeyError` for a missing label, `ValueError` for a length mismatch or a
reindex over repeated labels. -/
inductive ColumnsError
  | keyError
  | lengthMismatch
  | cannotReindex
  deriving DecidableEq, Repr

/-- A frame's columns, left to right: each column's label and data. -/
abbrev Columns (κ δ : Type) := List (κ × δ)

theorem zip_map_self {κ δ : Type} (data : κ → δ) (l : List κ) : l.zip (l.map data) = l.map fun c => (c, data c) := by
  induction l with
  | nil => rfl
  | cons c l ih => simp [ih]

section Columns

variable {κ δ : Type} [DecidableEq κ]

/-- `result[c]`: every column labelled `c`, in order. -/
def selectLabel (result : Columns κ δ) (c : κ) : Except ColumnsError (Columns κ δ) :=
  match result.filter (·.1 = c) with
  | [] => .error .keyError
  | cols => .ok cols

/-- `result.columns = labels`. -/
def setColumns (result : Columns κ δ) (labels : List κ) : Except ColumnsError (Columns κ δ) :=
  if result.length = labels.length then .ok (labels.zip (result.map (·.2))) else .error .lengthMismatch

/-- `Index.drop_duplicates()`: the first occurrence of every label, in order. -/
def dropDuplicates (labels : List κ) : List κ := go [] labels
where
  /-- The labels not seen before. -/
  go (seen : List κ) : List κ → List κ
    | [] => []
    | c :: cs => if c ∈ seen then go seen cs else c :: go (c :: seen) cs

/-- `Index.duplicated()`: whether each label occurred before. -/
def duplicated (labels : List κ) : List Bool := go [] labels
where
  /-- Whether each label is seen before. -/
  go (seen : List κ) : List κ → List Bool
    | [] => []
    | c :: cs => decide (c ∈ seen) :: go (c :: seen) cs

/-- `result.iloc[:, result.columns.duplicated()]`. -/
def keepDuplicated (result : Columns κ δ) : Columns κ δ :=
  ((result.zip (duplicated (result.map (·.1)))).filter (·.2)).map (·.1)

/-- The branch for pandas ≥ 2.1: `concat([result[c] for c in col_value.drop_duplicates()], axis=1)`, relabelled
`col_value`. -/
def reconcileNew (result : Columns κ δ) (colValue : List κ) : Except ColumnsError (Columns κ δ) := do
  let frames ← (dropDuplicates colValue).mapM (selectLabel result)
  setColumns frames.flatten colValue

/-- The older branch: the duplicated columns of `result`, then `concat([result[c] for c in col_value], axis=1)`,
relabelled `col_value`. -/
def reconcileOld (result : Columns κ δ) (colValue : List κ) : Except ColumnsError (Columns κ δ) := do
  let frames ← colValue.mapM (selectLabel (keepDuplicated result))
  setColumns frames.flatten colValue

/-- The columns at the end of `_execute_agg` for a 2-D output: a MultiIndex `col_value` with repeated labels goes
through the branch of the pandas version, any other `col_value` through `result.reindex(col_value, axis=1)`, which
fills a missing label with `nanColumn` and refuses a `result` with repeated labels. -/
def reconcileColumns (pdGreaterThan210 isMultiIndex : Bool) (nanColumn : δ) (result : Columns κ δ)
    (colValue : List κ) : Except ColumnsError (Columns κ δ) :=
  if isMultiIndex && !decide colValue.Nodup then
    if pdGreaterThan210 then reconcileNew result colValue else reconcileOld result colValue
  else if (result.map (·.1)).Nodup then .ok (colValue.map fun c => (c, (result.lookup c).getD nanColumn))
  else .error .cannotReindex

/-- The labels of `col_value` with the occurrences of every label moved to its first one. -/
def groupFirst (colValue : List κ) : List κ :=
  (dropDuplicates colValue).flatMap fun c => List.replicate (colValue.count c) c

/-! ## The labels -/

theorem mem_dropDuplicates_go {x : κ} : ∀ {seen l : List κ}, x ∈ dropDuplicates.go seen l ↔ x ∈ l ∧ x ∉ seen
  | _, [] => by simp [dropDuplicates.go]
  | seen, c :: cs => by
    rw [dropDuplicates.go]
    by_cases hx : x = c
    · subst hx; split <;> simp [*, mem_dropDuplicates_go]
    · split <;> simp [hx, mem_dropDuplicates_go]

theorem nodup_dropDuplicates_go : ∀ (seen l : List κ), (dropDuplicates.go seen l).Nodup
  | _, [] => List.nodup_nil
  | seen, c :: cs => by
    rw [dropDuplicates.go]
    split
    · exact nodup_dropDuplicates_go seen cs
    · exact List.nodup_cons.mpr ⟨fun h => (mem_dropDuplicates_go.mp h).2 (List.mem_cons_self _ _),
        nodup_dropDuplicates_go _ cs⟩

@[simp] theorem mem_dropDuplicates {x : κ} {l : List κ} : x ∈ dropDuplicates l ↔ x ∈ l := by
  simp [dropDuplicates, mem_dropDuplicates_go]

/-- Every label once: `drop_duplicates` is `dedup` up to order. -/
theorem dropDuplicates_perm_dedup (l : List κ) : List.Perm (dropDuplicates l) l.dedup :=
  (List.perm_ext_iff_of_nodup (nodup_dropDuplicates_go [] l) (List.nodup_dedup l)).mpr fun x => by
    simp [mem_dropDuplicates_go]

theorem length_groupFirst (l : List κ) : (groupFirst l).length = l.length := by
  rw [groupFirst, List.length_flatMap, ← List.sum_map_count_dedup_eq_length l]
  simp only [Function.comp_def, List.length_replicate]
  exact ((dropDuplicates_perm_dedup l).map fun c => l.count c).sum_eq

/-! ## Rearranged results -/

/-- A traversal whose function succeeds on the list. -/
theorem mapM_eq_ok {β γ ε : Type} {f : β → Except ε γ} {g : β → γ} :
    ∀ {l : List β}, (∀ x ∈ l, f x = .ok (g x)) → l.mapM f = .ok (l.map g)
  | [], _ => rfl
  | a :: l, h => by
    rw [List.mapM_cons, h a (List.mem_cons_self _ _), mapM_eq_ok fun x hx => h x (List.mem_cons_of_mem _ hx)]
    rfl

/-- A traversal whose function fails on the list, always with the same error. -/
theorem mapM_eq_error {β γ ε : Type} {f : β → Except ε γ} {e : ε} (he : ∀ x e', f x = .error e' → e' = e) :
    ∀ {l : List β}, (∃ x ∈ l, ∃ e', f x = .error e') → l.mapM f = .error e
  | [], ⟨_, hx, _⟩ => absurd hx (List.not_mem_nil _)
  | a :: l, ⟨x, hx, e', hfx⟩ => by
    rw [List.mapM_cons]
    cases ha : f a with
    | error e'' => rw [he a e'' ha]; rfl
    | ok b =>
      rcases List.mem_cons.mp hx with rfl | hx
      · rw [ha] at hfx; cases hfx
      · simp only [bind, Except.bind, mapM_eq_error he ⟨x, hx, e', hfx⟩]

theorem selectLabel_error {result : Columns κ δ} {c : κ} {e : ColumnsError} (h : selectLabel result c = .error e) :
    e = .keyError := by
  unfold selectLabel at h
  split at h <;> cases h
  rfl

variable (data : κ → δ)

/-- The columns of a rearranged result under one label: as many as `col_value` has, each with the label's
data. -/
theorem filter_label_rearranged {result : Columns κ δ} {colValue : List κ}
    (hperm : List.Perm result (colValue.map fun c => (c, data c))) (c : κ) :
    result.filter (·.1 = c) = List.replicate (colValue.count c) (c, data c) := by
  have hcols : (colValue.map fun c => (c, data c)).filter (·.1 = c) = List.replicate (colValue.count c) (c, data c) := by
    rw [List.filter_map, Function.comp_def, List.filter_eq, List.map_replicate]
  exact List.perm_replicate.mp (hcols ▸ hperm.filter _)

/-- **The newer branch over a rearranged result**: the columns of every label are moved to its first occurrence,
and relabelled `col_value` position by position. -/
theorem reconcileNew_rearranged {result : Columns κ δ} {colValue : List κ}
    (hperm : List.Perm result (colValue.map fun c => (c, data c))) :
    reconcileNew result colValue = .ok (colValue.zip ((groupFirst colValue).map data)) := by
  have hsel : ∀ c ∈ dropDuplicates colValue,
      selectLabel result c = .ok (List.replicate (colValue.count c) (c, data c)) := fun c hc => by
    obtain ⟨n, hn⟩ : ∃ n, colValue.count c = n + 1 :=
      ⟨_, (Nat.succ_pred_eq_of_pos (List.count_pos_iff.mpr (mem_dropDuplicates.mp hc))).symm⟩
    rw [selectLabel, filter_label_rearranged data hperm c, hn]
    rfl
  have hflat : ((dropDuplicates colValue).map fun c => List.replicate (colValue.count c) (c, data c)).flatten =
      (groupFirst colValue).map fun c => (c, data c) := by
    rw [groupFirst, List.map_flatMap, List.flatMap]
    simp
  simp only [reconcileNew, mapM_eq_ok hsel, bind, Except.bind, setColumns, hflat, List.length_map,
    length_groupFirst, ↓reduceIte, List.map_map]
  rfl

example : groupFirst [("a", "sum"), ("a", "mean"), ("a", "sum")] = [("a", "sum"), ("a", "sum"), ("a", "mean")] := by
  decide

theorem reconcileNew_rearranged_sum_mean_sum :
    List.Perm [(("a", "sum"), 1), (("a", "mean"), 2), (("a", "sum"), 1)]
        ([("a", "sum"), ("a", "mean"), ("a", "sum")].map fun c => (c, if c.2 = "sum" then 1 else 2)) ∧
      reconcileNew [(("a", "sum"), 1), (("a", "mean"), 2), (("a", "sum"), 1)] [("a", "sum"), ("a", "mean"), ("a", "sum")] =
        .ok ([("a", "sum"), ("a", "mean"), ("a", "sum")].zip
          ((groupFirst [("a", "sum"), ("a", "mean"), ("a", "sum")]).map fun c => if c.2 = "sum" then 1 else 2)) :=
  ⟨List.Perm.refl _, reconcileNew_rearranged _ (List.Perm.refl _)⟩

/-- The duplicated columns under one label: all of them if the label was seen before, all but the first
otherwise. -/
theorem filter_keep_go (c : κ) : ∀ (seen : List κ) (result : Columns κ δ),
    (((result.zip (duplicated.go seen (result.map (·.1)))).filter (·.2)).map (·.1)).filter (·.1 = c) =
      if c ∈ seen then result.filter (·.1 = c) else (result.filter (·.1 = c)).tail
  | seen, [] => by split_ifs <;> rfl
  | seen, p :: rest => by
    have ih := filter_keep_go c (p.1 :: seen) rest
    by_cases hc : p.1 = c
    · subst hc
      by_cases hp : p.1 ∈ seen <;> simp_all [duplicated.go, List.filter_cons]
    · by_cases hp : p.1 ∈ seen <;> simp_all [duplicated.go, List.filter_cons, Ne.symm hc]

/-- The columns `result.columns.duplicated()` keeps under one label of a rearranged result: one fewer than
`col_value` has. -/
theorem filter_keepDuplicated_rearranged {result : Columns κ δ} {colValue : List κ}
    (hperm : List.Perm result (colValue.map fun c => (c, data c))) (c : κ) :
    (keepDuplicated result).filter (·.1 = c) = List.replicate (colValue.count c - 1) (c, data c) := by
  rw [keepDuplicated, duplicated, filter_keep_go, if_neg (List.not_mem_nil c), filter_label_rearranged data hperm,
    List.tail_replicate]

/-- **The older branch over a rearranged result**: right when every label of `col_value` occurs exactly twice, a
`KeyError` when one occurs once. -/
theorem reconcileOld_rearranged {result : Columns κ δ} {colValue : List κ}
    (hperm : List.Perm result (colValue.map fun c => (c, data c))) :
    ((∀ c ∈ colValue, colValue.count c = 2) → reconcileOld result colValue = .ok (colValue.map fun c => (c, data c))) ∧
      ((∃ c ∈ colValue, colValue.count c = 1) → reconcileOld result colValue = .error .keyError) := by
  have hkeep := filter_keepDuplicated_rearranged data hperm
  constructor
  · intro h2
    have hsel : ∀ c ∈ colValue, selectLabel (keepDuplicated result) c = .ok [(c, data c)] := fun c hc => by
      rw [selectLabel, hkeep c, h2 c hc]
      rfl
    have hflat : (colValue.map fun c => [(c, data c)]).flatten = colValue.map fun c => (c, data c) := by
      rw [← List.flatMap, ← List.map_eq_flatMap]
    simp only [reconcileOld, mapM_eq_ok hsel, bind, Except.bind, setColumns, hflat, List.length_map, ↓reduceIte,
      List.map_map]
    exact congrArg Except.ok (zip_map_self data colValue)
  · rintro ⟨c, hc, h1⟩
    have hmap := mapM_eq_error (f := selectLabel (keepDuplicated result)) (fun _ _ h => selectLabel_error h)
      ⟨c, hc, .keyError, by rw [selectLabel, hkeep c, h1]; rfl⟩
    simp only [reconcileOld, hmap, bind, Except.bind]

theorem reconcileOld_rearranged_sum_sum :
    List.Perm [("sum", 1), ("sum", 1)] (["sum", "sum"].map fun c => (c, 1)) ∧
      (((∀ c ∈ ["sum", "sum"], ["sum", "sum"].count c = 2) →
          reconcileOld [("sum", 1), ("sum", 1)] ["sum", "sum"] = .ok (["sum", "sum"].map fun c => (c, 1))) ∧
        ((∃ c ∈ ["sum", "sum"], ["sum", "sum"].count c = 1) →
          reconcileOld [("sum", 1), ("sum", 1)] ["sum", "sum"] = .error .keyError)) :=
  ⟨List.Perm.refl _, reconcileOld_rearranged (fun _ => 1) (List.Perm.refl _)⟩

/-- With `col_value = [(a, sum), (a, mean), (a, sum)]` and the result in that order, the newer branch gives the
label `(a, mean)` the data of `sum` and the second `(a, sum)` the data of `mean`; the older branch keeps only the
second `(a, sum)` and raises on `(a, mean)`. -/
theorem reconcile_repeated_labels_misplaced {δ : Type} (dSum dMean : δ) :
    reconcileColumns true true dSum [(("a", "sum"), dSum), (("a", "mean"), dMean), (("a", "sum"), dSum)]
        [("a", "sum"), ("a", "mean"), ("a", "sum")] =
      .ok [(("a", "sum"), dSum), (("a", "mean"), dSum), (("a", "sum"), dMean)] ∧
    reconcileColumns false true dSum [(("a", "sum"), dSum), (("a", "mean"), dMean), (("a", "sum"), dSum)]
        [("a", "sum"), ("a", "mean"), ("a", "sum")] = .error .keyError :=
  ⟨rfl, rfl⟩

end Columns

end GroupByAgg
