import GroupByAgg.Eval
import GroupByAgg.PyFloat

/-!
# The tree combiner: `_build_tree_chunks` and `_build_out_tileable`

One round of the `while` loop of `_build_tree_chunks` cuts the chunk list into the batches
`chunks[i : i + combine_size]` for `i` in `range(0, len(chunks), combine_size)` and puts a combine-stage operand
over each (`treeRound`), over the concatenation of the batch when it has more than one chunk. The loop runs while
the list is longer than `combine_size` and, when a ceiling is given, the running size estimate is below it
(`treeLoop`, on a fuel that stands for the number of rounds the loop may still run).

* a round keeps the sum of the values of the chunks (`value_treeRound`), keeps every path rooted at one map-stage
  operand (`mapRooted_treeRound`) and reaches every operand its input list reaches (`reaches_treeRound`);
* a whole run keeps what one round keeps (`treeLoop_induction`);
* for `combine_size ≥ 2` the loop stops within as many rounds as the list has chunks (`treeLoop_ok`); for
  `combine_size = 1` a round maps the list onto one as long, and for `combine_size < 0` the range is empty and the
  list stays longer than `combine_size`, so without a ceiling the loop never stops (`treeLoop_one`, `treeLoop_neg`);
* with a ceiling `L` and an estimate `e`, after `k` rounds the loop holds `k` rounds of its list at the float
  estimate `concatSizeAfter c e k`, `e` times `c`, `k` times, each product rounded, and every round ran at an
  estimate below `L` (`treeLoop_estimate`);
* a run returns the state after exactly the rounds its guard allowed (`treeLoop_rounds`, `treeLoop_iterate`); `r`
  rounds leave `ceil(n / c ^ r)` chunks (`length_iterate_treeRound`, from `nBatches_nBatches`), so without a ceiling
  the loop runs the least `k` rounds with `ceil(n / c ^ k) ≤ c`, and with one the estimate after `r` rounds is
  within a relative `(1 + 2⁻⁵³) ^ r - 1` of `e * c ^ r` (`tree_rounds_ceil_counts`), but not equal to it
  (`concat_size_not_exact`).
-/

namespace GroupByAgg

/-! ## One round -/

section Batches

variable {α : Type}

/-- `chunks[i : i + c]` for `i = idx * c`: batch `idx` of the loop over `range(0, len(chunks), c)`. -/
def batch (c : Nat) (chunks : List α) (idx : Nat) : List α := (chunks.drop (idx * c)).take c

/-- `len(range(0, n, c))`. -/
def nBatches (c n : Nat) : Nat := (n + c - 1) / c

theorem flatten_batches (c k : Nat) (l : List α) :
    ((List.range k).map (batch c l)).flatten = l.take (k * c) := by
  induction k with
  | zero => simp
  | succ k ih => simp [List.range_succ, ih, batch, Nat.succ_mul, List.take_add]

theorem le_nBatches_mul {c : Nat} (hc : 0 < c) (n : Nat) : n ≤ nBatches c n * c := by
  have h1 := Nat.div_add_mod (n + c - 1) c
  have h2 := Nat.mod_lt (n + c - 1) hc
  rw [nBatches, Nat.mul_comm]
  omega

/-- The batches of a round are the list, cut in order. -/
theorem flatten_batches_all {c : Nat} (hc : 0 < c) (l : List α) :
    ((List.range (nBatches c l.length)).map (batch c l)).flatten = l := by
  rw [flatten_batches, List.take_of_length_le (le_nBatches_mul hc _)]

theorem mem_of_mem_batch {c idx : Nat} {l : List α} {x : α} (h : x ∈ batch c l idx) : x ∈ l :=
  List.mem_of_mem_drop (List.mem_of_mem_take h)

/-- Every chunk of the list is in some batch. -/
theorem exists_batch {c : Nat} (hc : 0 < c) {l : List α} {x : α} (h : x ∈ l) :
    ∃ idx < nBatches c l.length, x ∈ batch c l idx := by
  rw [← flatten_batches_all hc l] at h
  simpa using h

/-- A round shrinks a list longer than `c ≥ 2`. -/
theorem nBatches_lt {c n : Nat} (hc : 2 ≤ c) (h : c < n) : nBatches c n < n := by
  have : 2 * n ≤ c * n := Nat.mul_le_mul_right n hc
  rw [nBatches, Nat.div_lt_iff_lt_mul (by omega), Nat.mul_comm n c]
  omega

@[simp] theorem nBatches_one (n : Nat) : nBatches 1 n = n := by simp [nBatches]

theorem nBatches_pos {c n : Nat} (hc : 0 < c) (hn : 0 < n) : 0 < nBatches c n :=
  Nat.div_pos (by omega) hc

/-- Nested ceilings: `ceil(ceil(n / d) / c) = ceil(n / (d * c))`. -/
theorem nBatches_nBatches {c d : Nat} (hc : 0 < c) (hd : 0 < d) (n : Nat) :
    nBatches c (nBatches d n) = nBatches (d * c) n := by
  have hdc : d * (c - 1) + d = d * c := by rw [← Nat.mul_succ]; congr 1; omega
  have hsum : (n + d - 1) / d + (c - 1) = (n + d * c - 1) / d := by
    rw [← Nat.add_mul_div_left _ _ hd]; congr 1; omega
  rw [nBatches, nBatches, nBatches, Nat.add_sub_assoc hc, hsum, Nat.div_div_eq_div_mul]

end Batches

/-- What a batch is combined from: its only chunk, or its concatenation re-indexed `(j, 0)`. -/
def batchChunk : List Chunk → Chunk
  | [c] => c
  | chks => .node .concat [] (Chunk.reindex chks)

/-- The chunk the loop builds from batch `idx`: a combine-stage operand at `(idx, 0)`. -/
def combineChunk (idx : Nat) (chks : List Chunk) : Chunk :=
  .node (.groupByAgg .combine none) [idx, 0] [batchChunk chks]

/-- The new chunk list of one round of the `while` loop. -/
def treeRound (c : Nat) (chunks : List Chunk) : List Chunk :=
  (List.range (nBatches c chunks.length)).map fun idx => combineChunk idx (batch c chunks idx)

/-- A batch of one chunk is that chunk; any other is concatenated. -/
theorem batchChunk_cases (chks : List Chunk) :
    (∃ c, chks = [c] ∧ batchChunk chks = c) ∨ batchChunk chks = .node .concat [] (Chunk.reindex chks) :=
  match chks with
  | [c] => .inl ⟨c, rfl, rfl⟩
  | [] => .inr rfl
  | _ :: _ :: _ => .inr rfl

@[simp] theorem length_treeRound (c : Nat) (chunks : List Chunk) :
    (treeRound c chunks).length = nBatches c chunks.length := by
  simp [treeRound]

/-- `r` rounds leave `ceil(n / c ^ r)` chunks. -/
theorem length_iterate_treeRound {c : Nat} (hc : 0 < c) (r : Nat) (cs : List Chunk) :
    ((treeRound c)^[r] cs).length = nBatches (c ^ r) cs.length := by
  induction r with
  | zero => simp
  | succ r ih =>
    rw [Function.iterate_succ_apply', length_treeRound, ih, nBatches_nBatches hc (Nat.pos_pow_of_pos r hc), pow_succ]

/-- Round chunk `j` sits at `(j, 0)`. -/
theorem map_index_treeRound (c : Nat) (chunks : List Chunk) :
    (treeRound c chunks).map Chunk.index = (List.range (nBatches c chunks.length)).map fun j => [j, 0] := by
  simp [treeRound, combineChunk, Function.comp_def]

section Round

variable {M : Type} [AddCommMonoid M] (sp : Splitter M) (v : Nat → M)

theorem value_batchChunk (chks : List Chunk) : (batchChunk chks).value sp v = (chks.map (Chunk.value sp v)).sum := by
  rcases batchChunk_cases chks with ⟨c, rfl, h⟩ | h
  · simp [h]
  · rw [h, Chunk.value_node_sum _ _ ⟨.map, none, .inr rfl⟩, Chunk.map_reindex _ (Chunk.value_withIndex sp v)]

theorem value_combineChunk (idx : Nat) (chks : List Chunk) :
    (combineChunk idx chks).value sp v = (chks.map (Chunk.value sp v)).sum := by
  rw [combineChunk, Chunk.value_node_sum _ _ ⟨_, _, .inl rfl⟩, List.map_singleton, List.sum_singleton,
    value_batchChunk]

/-- **A round keeps the sum**: the new chunks sum to what the old ones summed to. -/
theorem value_treeRound {c : Nat} (hc : 0 < c) (chunks : List Chunk) :
    ((treeRound c chunks).map (Chunk.value sp v)).sum = (chunks.map (Chunk.value sp v)).sum := by
  conv_rhs => rw [← flatten_batches_all hc chunks]
  simp [treeRound, value_combineChunk, List.map_flatten, List.sum_flatten, Function.comp_def]

end Round

theorem mapRooted_batchChunk {chks : List Chunk} (h : ∀ c ∈ chks, c.MapRooted) : (batchChunk chks).MapRooted := by
  rcases batchChunk_cases chks with ⟨c, rfl, hb⟩ | hb <;> rw [hb]
  · exact h c (List.mem_singleton_self c)
  · refine Chunk.mapRooted_node fun d hd => ?_
    obtain ⟨e, he, idx', rfl⟩ := Chunk.mem_reindex hd
    exact Chunk.mapRooted_withIndex (h e he) idx'

theorem mapRooted_combineChunk (idx : Nat) {chks : List Chunk} (h : ∀ c ∈ chks, c.MapRooted) :
    (combineChunk idx chks).MapRooted :=
  Chunk.mapRooted_combine _ _ fun d hd => by
    rw [List.mem_singleton.mp hd]
    exact mapRooted_batchChunk h

theorem mapRooted_treeRound (c : Nat) {chunks : List Chunk} (h : ∀ d ∈ chunks, d.MapRooted) :
    ∀ d ∈ treeRound c chunks, d.MapRooted := by
  simp only [treeRound, List.mem_map, List.mem_range]
  rintro _ ⟨idx, -, rfl⟩
  exact mapRooted_combineChunk idx fun d hd => h d (mem_of_mem_batch hd)

/-- `out` reaches every operand that a chunk of `ins` reaches. -/
def Reaches (out ins : List Chunk) : Prop := ∀ d ∈ ins, ∀ o ∈ d.operands, ∃ e ∈ out, o ∈ e.operands

theorem Reaches.trans {a b c : List Chunk} (hab : Reaches a b) (hbc : Reaches b c) : Reaches a c := fun d hd o ho =>
  let ⟨e, he, ho'⟩ := hbc d hd o ho
  hab e he o ho'

theorem reaches_batchChunk (chks : List Chunk) : Reaches [batchChunk chks] chks := by
  intro d hd o ho
  refine ⟨_, List.mem_singleton_self _, ?_⟩
  rcases batchChunk_cases chks with ⟨c, rfl, hb⟩ | hb <;> rw [hb]
  · exact List.mem_singleton.mp hd ▸ ho
  · rw [Chunk.operands_node, Chunk.flatMap_reindex _ Chunk.operands_withIndex]
    exact List.mem_cons_of_mem _ (List.mem_flatMap.mpr ⟨d, hd, ho⟩)

theorem reaches_combineChunk (idx : Nat) (chks : List Chunk) : Reaches [combineChunk idx chks] chks := by
  intro d hd o ho
  obtain ⟨e, he, ho'⟩ := reaches_batchChunk chks d hd o ho
  rw [List.mem_singleton.mp he] at ho'
  exact ⟨_, List.mem_singleton_self _, by simp [combineChunk, ho']⟩

theorem reaches_treeRound {c : Nat} (hc : 0 < c) (chunks : List Chunk) : Reaches (treeRound c chunks) chunks := by
  intro d hd o ho
  obtain ⟨idx, hidx, hb⟩ := exists_batch hc hd
  obtain ⟨e, he, ho'⟩ := reaches_combineChunk idx _ d hb o ho
  simp only [List.mem_singleton] at he
  exact ⟨e, by simp [treeRound, he]; exact ⟨idx, hidx, rfl⟩, ho'⟩

theorem mem_operands_batchChunk {chks : List Chunk} {o : Operand} (ho : o ∈ (batchChunk chks).operands) :
    o = .concat ∨ ∃ a ∈ chks, o ∈ a.operands := by
  rcases batchChunk_cases chks with ⟨c, rfl, hb⟩ | hb <;> rw [hb] at ho
  · exact .inr ⟨c, List.mem_singleton_self c, ho⟩
  · rwa [Chunk.operands_node, Chunk.flatMap_reindex _ Chunk.operands_withIndex, List.mem_cons, List.mem_flatMap] at ho

/-- A round adds only combine-stage and concat operands to those its input reaches. -/
theorem mem_operands_treeRound {c : Nat} {chunks : List Chunk} {d : Chunk} (hd : d ∈ treeRound c chunks)
    {o : Operand} (ho : o ∈ d.operands) :
    o = .groupByAgg .combine none ∨ o = .concat ∨ ∃ a ∈ chunks, o ∈ a.operands := by
  simp only [treeRound, List.mem_map, List.mem_range] at hd
  obtain ⟨idx, -, rfl⟩ := hd
  simp only [combineChunk, Chunk.operands_node, List.flatMap_cons, List.flatMap_nil, List.append_nil,
    List.mem_cons] at ho
  rcases ho with rfl | ho
  · exact .inl rfl
  · rcases mem_operands_batchChunk ho with rfl | ⟨a, ha, ho⟩
    · exact .inr (.inl rfl)
    · exact .inr (.inr ⟨a, mem_of_mem_batch ha, ho⟩)

/-! ## The loop -/

/-- The variables of the `while` loop: `chunks` and the float `concat_chunk_size` (`None` when no size is tracked). -/
structure TreeState where
  chunks : List Chunk
  concatChunkSize : Option PyFloat

/-- The loop's condition: `(not check_size or concat_chunk_size < chunk_store_limit) and len(chunks) > combine_size`,
a comparison of floats and one of ints. -/
def treeGuard (c : Int) (chunkStoreLimit : Option PyFloat) (s : TreeState) : Bool :=
  (chunkStoreLimit.all fun l => s.concatChunkSize.any (· < l)) && decide (c < s.chunks.length)

/-- The loop's body: one round over `range(0, len(chunks), c)`, which is empty for `c < 0` as it is for
`c.toNat = 0`, and `concat_chunk_size *= combine_size`, a float times an int, when it is not `None`. -/
def treeStep (c : Int) (s : TreeState) : TreeState :=
  ⟨treeRound c.toNat s.chunks, s.concatChunkSize.map fun x => x.mulInt c⟩

/-- The `while` loop, allowed `fuel` more rounds. -/
def treeLoop (c : Int) (chunkStoreLimit : Option PyFloat) (fuel : Nat) (s : TreeState) :
    Except TileError TreeState :=
  if treeGuard c chunkStoreLimit s then
    if c = 0 then .error .rangeStepZero
    else match fuel with
      | 0 => .error .outOfFuel
      | fuel + 1 => treeLoop c chunkStoreLimit fuel (treeStep c s)
  else .ok s

/-- `concat_chunk_size` after `r` rounds from `e`: `e` times `c`, `r` times, each product rounded to a float. -/
def concatSizeAfter (c : Int) (e : PyFloat) (r : Nat) : PyFloat := (fun x => x.mulInt c)^[r] e

/-- An estimate stays zero exactly when it starts at zero, for `c ≠ 0`. -/
theorem concatSizeAfter_eq_zero_iff {c : Int} (hc : c ≠ 0) {e : PyFloat} :
    ∀ r, concatSizeAfter c e r = 0 ↔ e = 0
  | 0 => Iff.rfl
  | r + 1 => by
    rw [concatSizeAfter, Function.iterate_succ_apply', PyFloat.mulInt_eq_zero_iff, or_iff_left hc]
    exact concatSizeAfter_eq_zero_iff hc r

/-- What `_build_tree_chunks` returns: the list alone, or with the size when `concat_chunk_size` is truthy. -/
inductive TreeChunks
  | chunks (cs : List Chunk)
  | withSize (cs : List Chunk) (size : PyFloat)

/-- `return chunks, concat_chunk_size` if `concat_chunk_size` is truthy (not `None`, not zero), else `chunks`. -/
def TreeChunks.ofState (s : TreeState) : TreeChunks :=
  match s.concatChunkSize with
  | some x => if x ≠ 0 then .withSize s.chunks x else .chunks s.chunks
  | none => .chunks s.chunks

/-- `_build_tree_chunks(op, chunks, func_infos, combine_size, input_chunk_size, chunk_store_limit)`. -/
def buildTreeChunks (c : Int) (chunks : List Chunk) (inputChunkSize chunkStoreLimit : Option PyFloat) (fuel : Nat) :
    Except TileError TreeChunks :=
  if chunkStoreLimit.isSome && inputChunkSize.isNone then .error .assertion
  else (treeLoop c chunkStoreLimit fuel ⟨chunks, inputChunkSize⟩).map TreeChunks.ofState

section Loop

variable {c : Int} {L : Option PyFloat}

theorem treeLoop_of_guard_false {fuel : Nat} {s : TreeState} (h : treeGuard c L s = false) :
    treeLoop c L fuel s = .ok s := by
  rw [treeLoop.eq_def, if_neg (by simp [h])]

theorem treeLoop_succ {fuel : Nat} {s : TreeState} (h : treeGuard c L s = true) (hc : c ≠ 0) :
    treeLoop c L (fuel + 1) s = treeLoop c L fuel (treeStep c s) := by
  rw [treeLoop.eq_def, if_pos h, if_neg hc]

/-- A loop that must run a round raises when `c = 0` or when no fuel is left. -/
theorem treeLoop_error {fuel : Nat} {s : TreeState} (h : treeGuard c L s = true) (hc : c = 0 ∨ fuel = 0) :
    ∃ e, treeLoop c L fuel s = .error e := by
  rw [treeLoop.eq_def, if_pos h]
  rcases hc with hc | rfl
  · exact ⟨_, if_pos hc⟩
  · split <;> exact ⟨_, rfl⟩

/-- **Run lemma**: what every round keeps, from a state where the guard holds, holds when the loop stops, and the
guard fails there. -/
theorem treeLoop_induction (P : TreeState → Prop)
    (hstep : ∀ s, treeGuard c L s = true → c ≠ 0 → P s → P (treeStep c s)) :
    ∀ {fuel : Nat} {s s' : TreeState}, treeLoop c L fuel s = .ok s' → P s → P s' ∧ treeGuard c L s' = false
  | fuel, s, s', h, hs => by
    by_cases hg : treeGuard c L s = true
    · cases fuel with
      | zero => obtain ⟨e, he⟩ := treeLoop_error hg (.inr rfl); simp [he] at h
      | succ fuel =>
        by_cases hc : c = 0
        · obtain ⟨e, he⟩ := treeLoop_error hg (Or.inl hc : c = 0 ∨ fuel + 1 = 0); simp [he] at h
        · rw [treeLoop_succ hg hc] at h
          exact treeLoop_induction P hstep h (hstep s hg hc hs)
    · rw [treeLoop_of_guard_false (by simpa using hg)] at h
      cases h
      exact ⟨hs, by simpa using hg⟩

/-- **Termination**: for `c ≥ 2` the loop stops within `len(chunks) - c` rounds, ceiling or not. -/
theorem treeLoop_ok (hc : 2 ≤ c) : ∀ (fuel : Nat) (s : TreeState), s.chunks.length ≤ fuel + c.toNat →
    ∃ s', treeLoop c L fuel s = .ok s'
  | fuel, s, hlen => by
    by_cases hg : treeGuard c L s = true
    · have hlt : c < s.chunks.length := by simp [treeGuard] at hg; exact hg.2
      cases fuel with
      | zero => omega
      | succ fuel =>
        rw [treeLoop_succ hg (by omega)]
        refine treeLoop_ok hc fuel _ ?_
        have := nBatches_lt (c := c.toNat) (by omega) (by omega : c.toNat < s.chunks.length)
        simp only [treeStep, length_treeRound]
        omega
    · exact ⟨s, treeLoop_of_guard_false (by simpa using hg)⟩

/-- A run with `c ≥ 0` from a non-empty list ends at a non-empty list. -/
theorem treeLoop_ne_nil (hc : 0 ≤ c) {fuel : Nat} {s s' : TreeState} (h : treeLoop c L fuel s = .ok s')
    (hs : s.chunks ≠ []) : s'.chunks ≠ [] :=
  (treeLoop_induction (fun s => s.chunks ≠ []) (fun s _ hc0 hs => by
    simpa [treeStep, ← List.length_pos] using nBatches_pos (c := c.toNat) (by omega) (List.length_pos.mpr hs))
    h hs).1

/-- A run with `c ≥ 0` reaches every operand its first list reaches. -/
theorem reaches_treeLoop (hc : 0 ≤ c) {fuel : Nat} {s s' : TreeState} (h : treeLoop c L fuel s = .ok s') :
    Reaches s'.chunks s.chunks :=
  (treeLoop_induction (fun t => Reaches t.chunks s.chunks)
    (fun t _ hc0 ht => (reaches_treeRound (c := c.toNat) (by omega) t.chunks).trans ht) h
    fun d hd _ ho => ⟨d, hd, ho⟩).1

/-- With `c = 1` and no ceiling a round keeps the length of the list, hence the guard. -/
theorem treeGuard_treeStep_one (s : TreeState) : treeGuard 1 none (treeStep 1 s) = treeGuard 1 none s := by
  simp [treeGuard, treeStep]

/-- **No termination for `c = 1`**: from a state where the guard holds, every fuel runs out. -/
theorem treeLoop_one {s : TreeState} (h : treeGuard 1 none s = true) :
    ∀ fuel, treeLoop 1 none fuel s = .error .outOfFuel
  | 0 => by rw [treeLoop.eq_def, if_pos h]; rfl
  | fuel + 1 => by
    rw [treeLoop_succ h one_ne_zero]
    exact treeLoop_one (by rwa [treeGuard_treeStep_one]) fuel

/-- **No termination for `c < 0`** without a ceiling: `len(chunks) > c` always holds, and every fuel runs out. -/
theorem treeLoop_neg (hc : c < 0) : ∀ (fuel : Nat) (s : TreeState), treeLoop c none fuel s = .error .outOfFuel
  | 0, s => by rw [treeLoop.eq_def, if_pos (by simp [treeGuard]; omega), if_neg (by omega)]
  | fuel + 1, s => by
    rw [treeLoop_succ (by simp [treeGuard]; omega) (by omega)]
    exact treeLoop_neg hc fuel _

/-! ## The rounds of a run -/

/-- The state after `r` rounds: `r` rounds of the list, and the estimate after `r` rounded products. -/
theorem iterate_treeStep (r : Nat) (s : TreeState) :
    (treeStep c)^[r] s = ⟨(treeRound c.toNat)^[r] s.chunks, s.concatChunkSize.map (concatSizeAfter c · r)⟩ := by
  induction r with
  | zero => simp [concatSizeAfter]
  | succ r ih =>
    rw [Function.iterate_succ_apply', ih]
    simp [treeStep, concatSizeAfter, Function.iterate_succ_apply', Option.map_map, Function.comp_def]

/-- **A run is its rounds**: the loop returns the state after some `k` rounds, its guard held before each of them
and fails after the last. -/
theorem treeLoop_rounds {fuel : Nat} {s s' : TreeState} (h : treeLoop c L fuel s = .ok s') :
    ∃ k, s' = (treeStep c)^[k] s ∧ (∀ r < k, treeGuard c L ((treeStep c)^[r] s) = true) ∧
      treeGuard c L s' = false := by
  have hstep : ∀ t, treeGuard c L t = true → c ≠ 0 →
      (∃ k, t = (treeStep c)^[k] s ∧ ∀ r < k, treeGuard c L ((treeStep c)^[r] s) = true) →
      ∃ k, treeStep c t = (treeStep c)^[k] s ∧ ∀ r < k, treeGuard c L ((treeStep c)^[r] s) = true := by
    rintro t hg - ⟨k, rfl, hk⟩
    refine ⟨k + 1, (Function.iterate_succ_apply' _ _ _).symm, fun r hr => ?_⟩
    rcases Nat.lt_succ_iff_lt_or_eq.mp hr with hr | rfl
    · exact hk r hr
    · exact hg
  obtain ⟨⟨k, rfl, hk⟩, hg⟩ :=
    treeLoop_induction _ hstep h ⟨0, rfl, fun _ h => absurd h (Nat.not_lt_zero _)⟩
  exact ⟨k, rfl, hk, hg⟩

/-- Conversely, a guard that holds for `k` rounds and fails after them makes the loop return after exactly those
rounds, given the fuel. -/
theorem treeLoop_iterate (hc : c ≠ 0) {k : Nat} : ∀ {fuel : Nat} {s : TreeState}, k ≤ fuel →
    (∀ r < k, treeGuard c L ((treeStep c)^[r] s) = true) → treeGuard c L ((treeStep c)^[k] s) = false →
    treeLoop c L fuel s = .ok ((treeStep c)^[k] s) := by
  induction k with
  | zero => exact fun _ _ hstop => treeLoop_of_guard_false hstop
  | succ k ih =>
    intro fuel s hfuel hrun hstop
    obtain ⟨fuel, rfl⟩ : ∃ f, fuel = f + 1 := ⟨fuel - 1, by omega⟩
    have hg : treeGuard c L s = true := hrun 0 (Nat.succ_pos k)
    rw [treeLoop_succ hg hc]
    exact ih (by omega) (fun r hr => hrun (r + 1) (by omega)) hstop

/-- After `k` rounds from the list `cs` at the estimate `e`: the list is `k` rounds of `cs`, the estimate is
`concatSizeAfter c e k`, and every round started below the ceiling `l`. -/
def EstimateAfter (c : Int) (cs : List Chunk) (e l : PyFloat) (s : TreeState) : Prop :=
  ∃ k, s.chunks = (treeRound c.toNat)^[k] cs ∧ s.concatChunkSize = some (concatSizeAfter c e k) ∧
    ∀ r < k, concatSizeAfter c e r < l

/-- **The size estimate of a run with a ceiling**: after the `k` rounds it ran, the loop holds `k` rounds of its
list and `concat_chunk_size = concatSizeAfter c e k`; each round started with an estimate below the ceiling, and the
loop stopped because the estimate reached the ceiling or the list got short. -/
theorem treeLoop_estimate {e l : PyFloat} {fuel : Nat} {chunks : List Chunk} {s : TreeState}
    (h : treeLoop c (some l) fuel ⟨chunks, some e⟩ = .ok s) :
    EstimateAfter c chunks e l s ∧ treeGuard c (some l) s = false := by
  obtain ⟨k, rfl, hrun, hstop⟩ := treeLoop_rounds h
  refine ⟨⟨k, by rw [iterate_treeStep], by rw [iterate_treeStep]; rfl, fun r hr => ?_⟩, hstop⟩
  exact (by simpa [treeGuard, iterate_treeStep] using hrun r hr : _ ∧ _).1

/-- **The rounds of `_build_tree_chunks`**: for `combine_size = c ≥ 2` and `n` chunks, the loop without a ceiling
runs exactly the least `k` rounds with `ceil(n / c ^ k) ≤ c`; after round `r` it holds `ceil(n / c ^ r)` chunks, at
`(0, 0), …, (ceil(n / c ^ r) - 1, 0)`, chunk `j` built from the slice `[j * c, (j + 1) * c)` of the list before.
With a ceiling and an estimate `e`, `concat_chunk_size` after round `r` is `e` times `c`, `r` times, each product
rounded to a float; for `c < 2 ^ 53` it is within a relative `(1 + 2⁻⁵³) ^ r - 1` of `e * c ^ r`. -/
theorem tree_rounds_ceil_counts {c : Nat} (hc : 2 ≤ c) (chunks : List Chunk) :
    (∀ e : Option PyFloat, ∃ k, (chunks.length + c ^ k - 1) / c ^ k ≤ c ∧
      (∀ r < k, c < (chunks.length + c ^ r - 1) / c ^ r) ∧
      (∀ fuel, k ≤ fuel → treeLoop c none fuel ⟨chunks, e⟩ = .ok ((treeStep c)^[k] ⟨chunks, e⟩)) ∧
      (∀ r ≤ k, ((treeStep c)^[r] ⟨chunks, e⟩).chunks.length = (chunks.length + c ^ r - 1) / c ^ r) ∧
      (∀ r ≤ k, 0 < r → ((treeStep c)^[r] ⟨chunks, e⟩).chunks.map Chunk.index =
        (List.range ((chunks.length + c ^ r - 1) / c ^ r)).map fun j => [j, 0]) ∧
      ∀ r < k, ((treeStep c)^[r + 1] ⟨chunks, e⟩).chunks =
        (List.range ((chunks.length + c ^ (r + 1) - 1) / c ^ (r + 1))).map fun j =>
          combineChunk j ((((treeStep c)^[r] ⟨chunks, e⟩).chunks.drop (j * c)).take c)) ∧
    ∀ (L e : PyFloat) (fuel : Nat) (s : TreeState), treeLoop c (some L) fuel ⟨chunks, some e⟩ = .ok s →
      ∃ k, s = (treeStep c)^[k] ⟨chunks, some e⟩ ∧
        (∀ r < k, treeGuard c (some L) ((treeStep c)^[r] ⟨chunks, some e⟩) = true) ∧
        ∀ r ≤ k, ((treeStep c)^[r] ⟨chunks, some e⟩).concatChunkSize = some (concatSizeAfter c e r) ∧
          (c < 2 ^ 53 → |(concatSizeAfter c e r).val - e.val * c ^ r| ≤ ((1 + 1 / 2 ^ 53) ^ r - 1) * |e.val * c ^ r|) := by
  have hc0 : 0 < c := by omega
  have hlen : ∀ (e : Option PyFloat) r,
      ((treeStep c)^[r] ⟨chunks, e⟩).chunks.length = nBatches (c ^ r) chunks.length :=
    fun e r => by rw [iterate_treeStep, Int.toNat_natCast, length_iterate_treeRound hc0]
  -- the list after round `r + 1` is one round of the list after round `r`
  have hnext : ∀ (e : Option PyFloat) r, ((treeStep c)^[r + 1] ⟨chunks, e⟩).chunks =
      treeRound c ((treeStep c)^[r] ⟨chunks, e⟩).chunks := fun e r => by
    rw [Function.iterate_succ_apply']; simp [treeStep]
  have hcount : ∀ (e : Option PyFloat) r, nBatches c ((treeStep c)^[r] ⟨chunks, e⟩).chunks.length =
      nBatches (c ^ (r + 1)) chunks.length := fun e r => by
    rw [hlen, nBatches_nBatches hc0 (Nat.pos_pow_of_pos r hc0), ← pow_succ]
  refine ⟨fun e => ?_, fun L e fuel s h => ?_⟩
  · obtain ⟨s', hs'⟩ := treeLoop_ok (L := none) (by omega : (2 : Int) ≤ c) chunks.length ⟨chunks, e⟩ (by simp)
    obtain ⟨k, rfl, hrun, hstop⟩ := treeLoop_rounds hs'
    have hguard : ∀ r,
        treeGuard c none ((treeStep c)^[r] ⟨chunks, e⟩) = decide (c < nBatches (c ^ r) chunks.length) :=
      fun r => by simp [treeGuard, hlen]
    refine ⟨k, by simpa [hguard, nBatches] using hstop, fun r hr => by simpa [hguard, nBatches] using hrun r hr,
      fun fuel hf => treeLoop_iterate (by omega) hf hrun hstop, fun r _ => hlen e r, fun r _ hr => ?_,
      fun r _ => by rw [hnext, treeRound, hcount]; rfl⟩
    obtain ⟨r, rfl⟩ : ∃ q, r = q + 1 := ⟨r - 1, by omega⟩
    rw [hnext, map_index_treeRound, hcount]
    rfl
  · obtain ⟨k, rfl, hrun, -⟩ := treeLoop_rounds h
    refine ⟨k, rfl, hrun, fun r _ => ⟨by rw [iterate_treeStep]; rfl, fun h53 => ?_⟩⟩
    simpa [concatSizeAfter] using PyFloat.abs_val_iterate_mulInt_sub_le (c := c) (by simpa using h53) e r

theorem tree_rounds_ceil_counts_three_chunks :
    2 ≤ 2 ∧ ((∀ e : Option PyFloat, ∃ k, ((InputTileable.chunks ⟨3, true⟩).length + 2 ^ k - 1) / 2 ^ k ≤ 2 ∧
        (∀ r < k, 2 < ((InputTileable.chunks ⟨3, true⟩).length + 2 ^ r - 1) / 2 ^ r) ∧
        (∀ fuel, k ≤ fuel → treeLoop 2 none fuel ⟨InputTileable.chunks ⟨3, true⟩, e⟩ =
          .ok ((treeStep 2)^[k] ⟨InputTileable.chunks ⟨3, true⟩, e⟩)) ∧
        (∀ r ≤ k, ((treeStep 2)^[r] ⟨InputTileable.chunks ⟨3, true⟩, e⟩).chunks.length =
          ((InputTileable.chunks ⟨3, true⟩).length + 2 ^ r - 1) / 2 ^ r) ∧
        (∀ r ≤ k, 0 < r → ((treeStep 2)^[r] ⟨InputTileable.chunks ⟨3, true⟩, e⟩).chunks.map Chunk.index =
          (List.range (((InputTileable.chunks ⟨3, true⟩).length + 2 ^ r - 1) / 2 ^ r)).map fun j => [j, 0]) ∧
        ∀ r < k, ((treeStep 2)^[r + 1] ⟨InputTileable.chunks ⟨3, true⟩, e⟩).chunks =
          (List.range (((InputTileable.chunks ⟨3, true⟩).length + 2 ^ (r + 1) - 1) / 2 ^ (r + 1))).map fun j =>
            combineChunk j
              ((((treeStep 2)^[r] ⟨InputTileable.chunks ⟨3, true⟩, e⟩).chunks.drop (j * 2)).take 2)) ∧
      ∀ (L e : PyFloat) (fuel : Nat) (s : TreeState),
        treeLoop 2 (some L) fuel ⟨InputTileable.chunks ⟨3, true⟩, some e⟩ = .ok s →
        ∃ k, s = (treeStep 2)^[k] ⟨InputTileable.chunks ⟨3, true⟩, some e⟩ ∧
          (∀ r < k, treeGuard 2 (some L) ((treeStep 2)^[r] ⟨InputTileable.chunks ⟨3, true⟩, some e⟩) =
            true) ∧
          ∀ r ≤ k, ((treeStep 2)^[r] ⟨InputTileable.chunks ⟨3, true⟩, some e⟩).concatChunkSize =
              some (concatSizeAfter 2 e r) ∧
            ((2 : Nat) < 2 ^ 53 → |(concatSizeAfter 2 e r).val - e.val * (2 : Nat) ^ r| ≤
              ((1 + 1 / 2 ^ 53) ^ r - 1) * |e.val * (2 : Nat) ^ r|)) :=
  ⟨le_refl 2, tree_rounds_ceil_counts (le_refl 2) _⟩

/-- Three chunks and `combine_size = 2`: one round leaves two chunks, at `(0, 0)` and `(1, 0)`. -/
example : (treeRound 2 (InputTileable.chunks ⟨3, true⟩)).map Chunk.index = [[0, 0], [1, 0]] := by decide

set_option maxRecDepth 2000 in
/-- With the estimate `1004 / 7` (the mean of the recorded sizes `143, 143, 143, 143, 144, 144, 144`) and
`c = 7`, the loop over eight chunks under the ceiling `5000 / 4` runs one round and ends at the estimate
`1003.9999999999999`: neither the exact mean times `7`, `1004`, nor the float mean times `7`. -/
theorem concat_size_not_exact :
    treeLoop 7 (some (PyFloat.ofDiv 5000 4)) 1 ⟨InputTileable.chunks ⟨8, true⟩, some (PyFloat.ofDiv 1004 7)⟩ =
        .ok ((treeStep 7)^[1] ⟨InputTileable.chunks ⟨8, true⟩, some (PyFloat.ofDiv 1004 7)⟩) ∧
      ((treeStep 7)^[1] ⟨InputTileable.chunks ⟨8, true⟩, some (PyFloat.ofDiv 1004 7)⟩).concatChunkSize.map
          PyFloat.val ≠ some (1004 / 7 * 7 ^ 1) ∧
      ((treeStep 7)^[1] ⟨InputTileable.chunks ⟨8, true⟩, some (PyFloat.ofDiv 1004 7)⟩).concatChunkSize.map
          PyFloat.val ≠ some ((PyFloat.ofDiv 1004 7).val * 7 ^ 1) := by
  have he : PyFloat.ofDiv 1004 7 = ⟨5046444225312475, -45, .inr (by norm_num)⟩ := by decide
  have hx : (PyFloat.ofDiv 1004 7).mulInt 7 = ⟨8831277394296831, -43, .inr (by norm_num)⟩ := by decide
  refine ⟨treeLoop_iterate (by decide) (le_refl 1) (fun r hr => ?_) (by decide), ?_⟩
  · obtain rfl : r = 0 := by omega
    decide
  · show some ((PyFloat.ofDiv 1004 7).mulInt 7).val ≠ some (1004 / 7 * 7 ^ 1) ∧
      some ((PyFloat.ofDiv 1004 7).mulInt 7).val ≠ some ((PyFloat.ofDiv 1004 7).val * 7 ^ 1)
    rw [hx, he]
    norm_num [PyFloat.val]

theorem ofState_none {s : TreeState} (h : s.concatChunkSize = none) : TreeChunks.ofState s = .chunks s.chunks := by
  simp [TreeChunks.ofState, h]

/-- Without a ceiling nothing is tracked and the loop returns the bare list. -/
theorem buildTreeChunks_none (chunks : List Chunk) (fuel : Nat) :
    buildTreeChunks c chunks none none fuel = (treeLoop c none fuel ⟨chunks, none⟩).map fun s => .chunks s.chunks := by
  simp only [buildTreeChunks, Option.isSome_none, Bool.false_and, Bool.false_eq_true, ↓reduceIte]
  cases hs : treeLoop c none fuel ⟨chunks, none⟩ with
  | error e => rfl
  | ok s =>
    have hnone := (treeLoop_induction (c := c) (L := none) (fun s => s.concatChunkSize = none)
      (fun s _ _ hs => by simp [treeStep, hs]) hs rfl).1
    simp [Except.map, ofState_none hnone]

end Loop

/-! ## The final agg stage -/

/-- What the final agg-stage operand reads: the only chunk, or the concatenation of all. -/
def concatOut : List Chunk → Chunk
  | [c] => c
  | cs => .node .concat [] cs

/-- `_build_out_tileable`: one agg-stage operand at `(0, 0)` (a Series' at `(0,)`) over the combined chunks;
`combined_chunks[0]` of an empty list raises. -/
def buildOutTileable (op : DataFrameGroupByAgg) (combinedChunks : List Chunk) : Except TileError Tileable :=
  if combinedChunks.isEmpty then .error .indexError
  else .ok ⟨[.node (.groupByAgg .agg none) (op.outputType.gridIndex 0) [concatOut combinedChunks]],
    op.outputType.nsplits op.nColumns 1⟩

theorem concatOut_cases (cs : List Chunk) : (∃ c, cs = [c] ∧ concatOut cs = c) ∨ concatOut cs = .node .concat [] cs := by
  match cs with
  | [c] => exact .inl ⟨c, rfl, rfl⟩
  | [] => exact .inr rfl
  | _ :: _ :: _ => exact .inr rfl

theorem buildOutTileable_ok {op : DataFrameGroupByAgg} {cs : List Chunk} {out : Tileable}
    (h : buildOutTileable op cs = .ok out) : cs ≠ [] ∧
      out = ⟨[.node (.groupByAgg .agg none) (op.outputType.gridIndex 0) [concatOut cs]], op.outputType.nsplits op.nColumns 1⟩ := by
  unfold buildOutTileable at h
  split at h
  · cases h
  · rename_i hne
    exact ⟨by simpa using hne, (Except.ok.inj h).symm⟩

section Out

variable {M : Type} [AddCommMonoid M] (sp : Splitter M) (v : Nat → M)

theorem value_concatOut (cs : List Chunk) : (concatOut cs).value sp v = (cs.map (Chunk.value sp v)).sum := by
  rcases concatOut_cases cs with ⟨c, rfl, h⟩ | h <;> rw [h]
  · simp
  · exact Chunk.value_node_sum _ _ ⟨.map, none, .inr rfl⟩ _ _

/-- The tree's output is one chunk worth the sum of the combined chunks. -/
theorem value_buildOutTileable {op : DataFrameGroupByAgg} {cs : List Chunk} {out : Tileable}
    (h : buildOutTileable op cs = .ok out) :
    (out.chunks.map (Chunk.value sp v)).sum = (cs.map (Chunk.value sp v)).sum := by
  obtain ⟨-, rfl⟩ := buildOutTileable_ok h
  simp [Chunk.value_node_sum _ _ ⟨.agg, none, .inl rfl⟩, value_concatOut]

end Out

theorem mapRooted_concatOut {cs : List Chunk} (h : ∀ c ∈ cs, c.MapRooted) : (concatOut cs).MapRooted := by
  rcases concatOut_cases cs with ⟨c, rfl, hc⟩ | hc <;> rw [hc]
  · exact h c (List.mem_singleton_self c)
  · exact Chunk.mapRooted_node h

theorem finalizedAll_buildOutTileable {op : DataFrameGroupByAgg} {cs : List Chunk} {out : Tileable}
    (h : buildOutTileable op cs = .ok out) (hcs : ∀ c ∈ cs, c.MapRooted) : ∀ c ∈ out.chunks, c.FinalizedAll := by
  obtain ⟨-, rfl⟩ := buildOutTileable_ok h
  simpa using Chunk.finalizedAll_agg _ _ fun d hd => by
    rw [List.mem_singleton.mp hd]; exact mapRooted_concatOut hcs

theorem reaches_buildOutTileable {op : DataFrameGroupByAgg} {cs : List Chunk} {out : Tileable}
    (h : buildOutTileable op cs = .ok out) : Reaches out.chunks cs := by
  obtain ⟨-, rfl⟩ := buildOutTileable_ok h
  intro d hd o ho
  refine ⟨_, List.mem_singleton_self _, ?_⟩
  rcases concatOut_cases cs with ⟨c, rfl, hc⟩ | hc
  · rw [List.mem_singleton.mp hd] at ho; simp [hc, ho]
  · simp only [hc, Chunk.operands_node, List.flatMap_cons, List.flatMap_nil, List.append_nil, List.mem_cons,
      List.mem_flatMap]
    exact .inr (.inr ⟨d, hd, ho⟩)

end GroupByAgg
