import GroupByAgg.Correct
import GroupByAgg.Execute
import Mathlib.Tactic.NormNum

/-!
# The auto path: what the probe leaves in the plan

With more input chunks than `combine_size`, `tile` probes (`_tile_auto`), and `_build_tree_and_shuffle_chunks`
combines the map chunks under the ceiling `L = chunk_store_limit / 4`, starting from the mean `e` of the sizes the
probe recorded, then keeps the tree or shuffles.

* **Estimates** (`auto_concat_estimates`): every round `r` starts at the float estimate `concatSizeAfter c e r < L`
  (`e` times `c`, `r` times, each product rounded), so the concatenations it builds are bounded by about `c * L`
  only; the tree is kept when the final estimate is within `L`, and then at most `c` chunks are left or the
  estimate is exactly `L`.
* **The size recorder** (`probe_recorder_survives_in_plan`): every output chunk reaches the probe's map operands,
  which still name the recorder `_tile_auto` destroyed, so executing one again fails on the recorder's lookup.
* **Zero sizes** (`auto_tile_fails_iff_sizes_zero`): when the recorded sizes are all zero, `_build_tree_chunks`
  returns a bare list and the unpacking raises, whatever the fuel; any other sizes give a plan.
* **Declared counts** (`shuffle_declared_counts`): every count a shuffled plan declares is the number `n` of
  shuffled chunks, but for the sort-shuffle map operands' `shuffle_size`, the number of input chunks; after a
  combining round the two differ (`auto_shuffle_declares_input_count`).
-/

namespace GroupByAgg

/-! ## The loop under a ceiling -/

section Ceiling

variable {c : Int} {L e : PyFloat} {fuel : Nat} {cs : List Chunk}

/-- A round runs while the estimate is below the ceiling and more than `c` chunks are left. -/
theorem treeLoop_some_succ (he : e < L) (hc : c < cs.length) (hc0 : c ≠ 0) :
    treeLoop c (some L) (fuel + 1) ⟨cs, some e⟩ =
      treeLoop c (some L) fuel ⟨treeRound c.toNat cs, some (e.mulInt c)⟩ :=
  treeLoop_succ (by simp [treeGuard, he, hc]) hc0

/-- The loop stops at the ceiling or when at most `c` chunks are left. -/
theorem treeLoop_some_stop (h : L ≤ e ∨ cs.length ≤ c) : treeLoop c (some L) fuel ⟨cs, some e⟩ = .ok ⟨cs, some e⟩ :=
  treeLoop_of_guard_false <| by
    rcases h with h | h
    · simp [treeGuard, PyFloat.not_lt_iff.mpr h]
    · simp [treeGuard, not_lt.mpr h]

/-- Three chunks below the ceiling take one round with `c = 2`. -/
theorem treeLoop_two_three (hcs : cs.length = 3) (he : e < L) :
    treeLoop 2 (some L) (fuel + 1) ⟨cs, some e⟩ = .ok ⟨treeRound 2 cs, some (e.mulInt 2)⟩ := by
  rw [treeLoop_some_succ he (by omega) (by decide), treeLoop_some_stop (.inr (by simp [hcs]; decide))]
  rfl

end Ceiling

/-! ## The auto path, step by step -/

section Auto

variable {rt : Runtime} {fuel : Nat} {op : DataFrameGroupByAgg} {inDf : InputTileable}

@[simp] theorem length_probeChunks (name : String) :
    (probeChunks op inDf name).length = sliceIndex inDf.nChunks op.combineSize := by
  simp [probeChunks, sliceIndex_le]

/-- The loop of the auto path starts from one chunk per input chunk. -/
theorem length_autoChunks (name : String) :
    (probeChunks op inDf name ++
      genMapChunks op (inDf.chunks.drop (sliceIndex inDf.nChunks op.combineSize))).length = inDf.nChunks := by
  have := sliceIndex_le inDf.nChunks op.combineSize
  simp only [List.length_append, length_probeChunks, length_genMapChunks, List.length_drop,
    InputTileable.length_chunks]
  omega

theorem tilePlan_auto (hm : op.method = "auto") (hn : op.combineSize < inDf.nChunks) :
    tilePlan rt fuel op inDf = tileAuto rt fuel op inDf := by
  simp [tilePlan, hm, InputTileable.length_chunks, not_le.mpr hn]

theorem tile_eq {fin : Finish} {objs : List String} (h : tilePlan rt fuel op inDf = .ok (fin, objs)) :
    tile rt fuel op inDf = (fin.build op inDf).map (·, objs) := by
  simp [tile, h, Except.bind]

/-- **What the auto path returns**, once the mean size, the loop's run and its final estimate are known: the
converse of `buildTreeAndShuffleChunks_ok`. -/
theorem tilePlan_auto_eq {e x : PyFloat} {s : TreeState} (hm : op.method = "auto")
    (hn : op.combineSize < inDf.nChunks) (he : meanSize rt.aggSizes = .ok e)
    (hs : treeLoop op.combineSize (some (combineChunkLimit op)) fuel ⟨probeChunks op inDf rt.recorderName ++
      genMapChunks op (inDf.chunks.drop (sliceIndex inDf.nChunks op.combineSize)), some e⟩ = .ok s)
    (hx : s.concatChunkSize = some x) (hx0 : x ≠ 0) :
    tilePlan rt fuel op inDf = .ok (if x ≤ combineChunkLimit op then .tree s.chunks else .shuffle s.chunks,
      destroyRemoteObject (createRemoteObject rt.remoteObjects rt.recorderName) rt.recorderName) := by
  rw [tilePlan_auto hm hn]
  simp only [tileAuto, buildTreeAndShuffleChunks, bind, Except.bind, he, buildTreeChunks, Option.isSome_some,
    Option.isNone_some, Bool.and_false, Bool.false_eq_true, ↓reduceIte, hs, Except.map, TreeChunks.ofState, hx,
    ne_eq, hx0, not_false_eq_true, unpackPair]
  split_ifs <;> rfl

theorem meanSize_ok {sizes : List Nat} (hne : sizes ≠ []) :
    meanSize sizes = .ok (PyFloat.ofDiv sizes.sum sizes.length) := by
  simp [meanSize, List.isEmpty_iff, hne]

theorem meanSize_eq {sizes : List Nat} {e : PyFloat} (hne : sizes ≠ [])
    (he : PyFloat.ofDiv sizes.sum sizes.length = e) : meanSize sizes = .ok e := by
  rw [meanSize_ok hne, he]

set_option maxRecDepth 2000 in
theorem combineChunkLimit_forty : combineChunkLimit ⟨"auto", 2, 40, true, .dataframe, 1⟩ = 10 := by decide

/-- Three input chunks, `combine_size = 2` and `chunk_store_limit = 40`: an estimate below the ceiling `10` runs
one round. -/
theorem tilePlan_auto_three {e : PyFloat} (he : meanSize rt.aggSizes = .ok e) (he0 : e ≠ 0) (hL : e < 10) :
    tilePlan rt 1 ⟨"auto", 2, 40, true, .dataframe, 1⟩ ⟨3, true⟩ =
      .ok (if e.mulInt 2 ≤ 10
          then .tree (treeRound 2 (probeChunks ⟨"auto", 2, 40, true, .dataframe, 1⟩ ⟨3, true⟩ rt.recorderName ++
            genMapChunks ⟨"auto", 2, 40, true, .dataframe, 1⟩ ((InputTileable.chunks ⟨3, true⟩).drop 2)))
          else .shuffle (treeRound 2 (probeChunks ⟨"auto", 2, 40, true, .dataframe, 1⟩ ⟨3, true⟩ rt.recorderName ++
            genMapChunks ⟨"auto", 2, 40, true, .dataframe, 1⟩ ((InputTileable.chunks ⟨3, true⟩).drop 2))),
        destroyRemoteObject (createRemoteObject rt.remoteObjects rt.recorderName) rt.recorderName) := by
  rw [tilePlan_auto_eq rfl (by decide) he
    (by rw [combineChunkLimit_forty]; exact treeLoop_two_three (length_autoChunks _) hL) rfl
    (PyFloat.mulInt_eq_zero_iff.not.mpr (by simp [he0])), combineChunkLimit_forty]
  rfl

/-! ## The size estimates -/

/-- **The estimates of the auto path**: from the mean `e` of the recorded sizes the loop runs `k` rounds, each
started at a float estimate `concatSizeAfter c e r` below the ceiling `L = chunk_store_limit / 4`, so that the
concatenations round `r` builds are bounded by about `c * L` only; the tree is kept exactly when
`concatSizeAfter c e k ≤ L`, and then at most `c` chunks are left or `concatSizeAfter c e k = L`. -/
theorem auto_concat_estimates {fin : Finish} {objs : List String} (hm : op.method = "auto")
    (hn : op.combineSize < inDf.nChunks) (h : tilePlan rt fuel op inDf = .ok (fin, objs)) :
    ∃ e k, meanSize rt.aggSizes = .ok e ∧
      fin.chunks = (treeRound op.combineSize.toNat)^[k] (probeChunks op inDf rt.recorderName ++
        genMapChunks op (inDf.chunks.drop (sliceIndex inDf.nChunks op.combineSize))) ∧
      (∀ r < k, concatSizeAfter op.combineSize e r < combineChunkLimit op) ∧
      (fin.isTree ↔ concatSizeAfter op.combineSize e k ≤ combineChunkLimit op) ∧
      (fin.isTree → fin.chunks.length ≤ op.combineSize ∨
        concatSizeAfter op.combineSize e k = combineChunkLimit op) := by
  rw [tilePlan_auto hm hn] at h
  obtain ⟨e, s, x, he, hs, hx, -, rfl⟩ := buildTreeAndShuffleChunks_ok (tileAuto_ok h).1
  obtain ⟨⟨k, hcs, hk, hr⟩, hg⟩ := treeLoop_estimate hs
  obtain rfl : x = concatSizeAfter op.combineSize e k := Option.some.inj (hx.symm.trans hk)
  have hstop : concatSizeAfter op.combineSize e k < combineChunkLimit op → s.chunks.length ≤ op.combineSize := by
    simpa [treeGuard, hk] using hg
  refine ⟨e, k, he, by split_ifs <;> exact hcs, hr, by split_ifs with hle <;> simp [Finish.isTree, hle], fun ht => ?_⟩
  split_ifs at ht ⊢ with hle
  · exact (PyFloat.lt_or_eq_of_le_val hle).imp hstop id
  · simp [Finish.isTree] at ht

set_option maxRecDepth 4000 in
/-- At the ceiling the rounding decides: eight input chunks, `combine_size = 7`, `chunk_store_limit = 116` (the
ceiling `29.0`) and recorded sizes `[5, 4, 4, 4, 4, 4, 4]`, whose exact mean times `7` is `29`. The float mean rounds
up, one round ends at the estimate `29.000000000000004 > 29.0`, and the tiling shuffles. -/
theorem auto_concat_estimates_eight_chunks :
    ∃ fin objs, tilePlan ⟨[], "r", [5, 4, 4, 4, 4, 4, 4]⟩ 1 ⟨"auto", 7, 116, true, .dataframe, 1⟩ ⟨8, true⟩ =
        .ok (fin, objs) ∧ fin.isTree = false ∧ "auto" = "auto" ∧ (7 : Int) < 8 ∧
      ∃ e k, meanSize [5, 4, 4, 4, 4, 4, 4] = .ok e ∧
        fin.chunks = (treeRound (7 : Int).toNat)^[k] (probeChunks ⟨"auto", 7, 116, true, .dataframe, 1⟩ ⟨8, true⟩ "r" ++
          genMapChunks ⟨"auto", 7, 116, true, .dataframe, 1⟩ ((InputTileable.chunks ⟨8, true⟩).drop (sliceIndex 8 7))) ∧
        (∀ r < k, concatSizeAfter 7 e r < combineChunkLimit ⟨"auto", 7, 116, true, .dataframe, 1⟩) ∧
        (fin.isTree ↔ concatSizeAfter 7 e k ≤ combineChunkLimit ⟨"auto", 7, 116, true, .dataframe, 1⟩) ∧
        (fin.isTree → fin.chunks.length ≤ (7 : Int) ∨
          concatSizeAfter 7 e k = combineChunkLimit ⟨"auto", 7, 116, true, .dataframe, 1⟩) := by
  have hs : treeLoop 7 (some (combineChunkLimit ⟨"auto", 7, 116, true, .dataframe, 1⟩)) 1
      ⟨probeChunks ⟨"auto", 7, 116, true, .dataframe, 1⟩ ⟨8, true⟩ "r" ++ genMapChunks ⟨"auto", 7, 116, true, .dataframe, 1⟩
        ((InputTileable.chunks ⟨8, true⟩).drop (sliceIndex 8 7)), some (PyFloat.ofDiv 29 7)⟩ =
      .ok ⟨treeRound (7 : Int).toNat (probeChunks ⟨"auto", 7, 116, true, .dataframe, 1⟩ ⟨8, true⟩ "r" ++
        genMapChunks ⟨"auto", 7, 116, true, .dataframe, 1⟩ ((InputTileable.chunks ⟨8, true⟩).drop (sliceIndex 8 7))),
        some ((PyFloat.ofDiv 29 7).mulInt 7)⟩ := by
    rw [treeLoop_some_succ (by decide) (by rw [length_autoChunks]; decide) (by decide),
      treeLoop_some_stop (.inl (by decide))]
  have hplan := @tilePlan_auto_eq ⟨[], "r", [5, 4, 4, 4, 4, 4, 4]⟩ 1 ⟨"auto", 7, 116, true, .dataframe, 1⟩ ⟨8, true⟩
    (PyFloat.ofDiv 29 7) ((PyFloat.ofDiv 29 7).mulInt 7) _ rfl (by decide) (meanSize_eq (by decide) (by decide)) hs rfl
    (by decide)
  rw [if_neg (by decide)] at hplan
  exact ⟨_, _, hplan, rfl, rfl, by decide, auto_concat_estimates rfl (by decide) hplan⟩

set_option maxRecDepth 2000 in
/-- The loop tests the estimate from before a round. With three input chunks, `combine_size = 2` and
`chunk_store_limit = 40` (the ceiling `10`): recorded sizes `[6, 6]` start a round at the estimate `6`, whose
concatenations are estimated `12`; recorded sizes `[3, 3]` keep the tree over two chunks estimated `6` each, which
the final agg stage concatenates into an estimate of `12`. -/
theorem auto_round_exceeds_ceiling :
    combineChunkLimit ⟨"auto", 2, 40, true, .dataframe, 1⟩ = 10 ∧
      (treeLoop 2 (some 10) 1 ⟨probeChunks ⟨"auto", 2, 40, true, .dataframe, 1⟩ ⟨3, true⟩ "r" ++ genMapChunks ⟨"auto", 2, 40, true, .dataframe, 1⟩ ((InputTileable.chunks ⟨3, true⟩).drop 2), some 6⟩ =
          .ok ⟨treeRound 2 (probeChunks ⟨"auto", 2, 40, true, .dataframe, 1⟩ ⟨3, true⟩ "r" ++ genMapChunks ⟨"auto", 2, 40, true, .dataframe, 1⟩ ((InputTileable.chunks ⟨3, true⟩).drop 2)), some 12⟩ ∧
        tilePlan ⟨[], "r", [6, 6]⟩ 1 ⟨"auto", 2, 40, true, .dataframe, 1⟩ ⟨3, true⟩ =
          .ok (.shuffle (treeRound 2 (probeChunks ⟨"auto", 2, 40, true, .dataframe, 1⟩ ⟨3, true⟩ "r" ++ genMapChunks ⟨"auto", 2, 40, true, .dataframe, 1⟩ ((InputTileable.chunks ⟨3, true⟩).drop 2))), [])) ∧
      (treeLoop 2 (some 10) 1 ⟨probeChunks ⟨"auto", 2, 40, true, .dataframe, 1⟩ ⟨3, true⟩ "r" ++ genMapChunks ⟨"auto", 2, 40, true, .dataframe, 1⟩ ((InputTileable.chunks ⟨3, true⟩).drop 2), some 3⟩ =
          .ok ⟨treeRound 2 (probeChunks ⟨"auto", 2, 40, true, .dataframe, 1⟩ ⟨3, true⟩ "r" ++ genMapChunks ⟨"auto", 2, 40, true, .dataframe, 1⟩ ((InputTileable.chunks ⟨3, true⟩).drop 2)), some 6⟩ ∧
        tilePlan ⟨[], "r", [3, 3]⟩ 1 ⟨"auto", 2, 40, true, .dataframe, 1⟩ ⟨3, true⟩ =
          .ok (.tree (treeRound 2 (probeChunks ⟨"auto", 2, 40, true, .dataframe, 1⟩ ⟨3, true⟩ "r" ++ genMapChunks ⟨"auto", 2, 40, true, .dataframe, 1⟩ ((InputTileable.chunks ⟨3, true⟩).drop 2))), []) ∧
        (treeRound 2 (probeChunks ⟨"auto", 2, 40, true, .dataframe, 1⟩ ⟨3, true⟩ "r" ++ genMapChunks ⟨"auto", 2, 40, true, .dataframe, 1⟩ ((InputTileable.chunks ⟨3, true⟩).drop 2))).length = 2) := by
  refine ⟨combineChunkLimit_forty, ⟨?_, ?_⟩, ?_, ?_, rfl⟩
  · rw [treeLoop_two_three (by rfl) (by decide), (by decide : (6 : PyFloat).mulInt 2 = 12)]
  · rw [tilePlan_auto_three (e := 6) (meanSize_eq (by decide) (by decide)) (by decide) (by decide),
      if_neg (by decide)]
    rfl
  · rw [treeLoop_two_three (by rfl) (by decide), (by decide : (3 : PyFloat).mulInt 2 = 6)]
  · rw [tilePlan_auto_three (e := 3) (meanSize_eq (by decide) (by decide)) (by decide) (by decide),
      if_pos (by decide)]
    rfl

/-! ## The size recorder -/

/-- The probe's map operands name the size recorder. -/
theorem recorder_mem_probe (hc : 0 < op.combineSize) (hn : 0 < inDf.nChunks) (name : String) :
    ∃ p ∈ probeChunks op inDf name, Operand.groupByAgg .map (some name) ∈ p.operands := by
  have := sliceIndex_of_nonneg (n := inDf.nChunks) hc.le
  obtain ⟨d, hd⟩ := List.exists_mem_of_ne_nil (inDf.chunks.take (sliceIndex inDf.nChunks op.combineSize))
    (List.ne_nil_of_length_pos (by rw [List.length_take, InputTileable.length_chunks]; omega))
  exact ⟨_, List.mem_map_of_mem _ (List.mem_map_of_mem _ hd), by simp [setSizeRecorder]⟩

/-- Every output chunk reaches every operand of the list its final stage is built from. -/
theorem mem_operands_build {fin : Finish} {out : Tileable} (h : fin.build op inDf = .ok out) {a : Chunk}
    (ha : a ∈ fin.chunks) {o : Operand} (ho : o ∈ a.operands) : ∀ c ∈ out.chunks, o ∈ c.operands := by
  cases fin with
  | tree cs =>
    obtain ⟨e, he, hoe⟩ := reaches_buildOutTileable h a ha o ho
    obtain ⟨-, rfl⟩ := buildOutTileable_ok h
    intro c hc
    rwa [List.mem_singleton.mp hc, ← List.mem_singleton.mp he]
  | shuffle cs =>
    cases h
    simp only [performShuffle, List.forall_mem_map]
    exact fun r hr => Chunk.mem_operands_node (List.mem_singleton_self _) (operands_reduceChunks ha ho r hr)

/-- **The destroyed size recorder stays in the plan**: every output chunk of an auto tiling that probes reaches the
probe's map operands, which name the size recorder that `_tile_auto` destroyed, so that executing one of them again
never succeeds. -/
theorem probe_recorder_survives_in_plan {out : Tileable} {objs : List String} (hm : op.method = "auto")
    (hc : 0 < op.combineSize) (hn : op.combineSize < inDf.nChunks) (h : tile rt fuel op inDf = .ok (out, objs)) :
    rt.recorderName ∉ objs ∧ (∀ c ∈ out.chunks, Operand.groupByAgg .map (some rt.recorderName) ∈ c.operands) ∧
      ∀ {α : Type} (impl : AggImpl α) (aop : AggOp) (inData : α) (res : List α),
        aop.toOperand = .groupByAgg .map (some rt.recorderName) → executeMap impl objs aop inData ≠ .ok res := by
  obtain ⟨fin, hplan, hbuild⟩ := tile_ok h
  rw [tilePlan_auto hm hn] at hplan
  obtain ⟨hb, rfl⟩ := tileAuto_ok hplan
  have hgone : rt.recorderName ∉
      destroyRemoteObject (createRemoteObject rt.remoteObjects rt.recorderName) rt.recorderName := by
    simp [destroyRemoteObject]
  refine ⟨hgone, ?_, fun impl aop inData res hop => executeMap_recorder_gone impl
    (Operand.groupByAgg.inj hop).2 hgone inData res⟩
  obtain ⟨e, s, x, -, hs, -, -, rfl⟩ := buildTreeAndShuffleChunks_ok hb
  obtain ⟨p, hp, hop⟩ := recorder_mem_probe hc (by omega : 0 < inDf.nChunks) rt.recorderName
  obtain ⟨a, ha, hoa⟩ := reaches_treeLoop hc.le hs p (List.mem_append_left _ hp) _ hop
  exact mem_operands_build hbuild (by split_ifs <;> exact ha) hoa

set_option maxRecDepth 2000 in
theorem probe_recorder_survives_three_chunks :
    ∃ out objs, tile ⟨[], "r", [3, 3]⟩ 1 ⟨"auto", 2, 40, true, .dataframe, 1⟩ ⟨3, true⟩ = .ok (out, objs) ∧
      ("r" ∉ objs ∧ (∀ c ∈ out.chunks, Operand.groupByAgg .map (some "r") ∈ c.operands) ∧
        ∀ {α : Type} (impl : AggImpl α) (aop : AggOp) (inData : α) (res : List α),
          aop.toOperand = .groupByAgg .map (some "r") → executeMap impl objs aop inData ≠ .ok res) := by
  obtain ⟨p, hp⟩ : ∃ p, tile ⟨[], "r", [3, 3]⟩ 1 ⟨"auto", 2, 40, true, .dataframe, 1⟩ ⟨3, true⟩ = .ok p := by
    rw [tile_eq (tilePlan_auto_three (e := 3) (meanSize_eq (by decide) (by decide)) (by decide) (by decide)),
      if_pos (by decide)]
    exact ⟨_, rfl⟩
  exact ⟨p.1, p.2, hp, probe_recorder_survives_in_plan rfl (by decide) (by decide) hp⟩

/-! ## Zero sizes -/

/-- **Zero sizes break the auto path**: with `2 ≤ c < n` and recorded sizes that sum to zero, the estimate stays
zero, `_build_tree_chunks` returns a bare list and the unpacking raises, whatever the fuel; sizes that do not sum to
zero give a plan within `n` rounds. -/
theorem auto_tile_fails_iff_sizes_zero (hm : op.method = "auto") (hc : 2 ≤ op.combineSize)
    (hn : op.combineSize < inDf.nChunks) (hne : rt.aggSizes ≠ []) :
    (rt.aggSizes.sum = 0 → ∀ fuel, ∃ err, tile rt fuel op inDf = .error err) ∧
      (rt.aggSizes.sum ≠ 0 → ∃ r, tile rt inDf.nChunks op inDf = .ok r) := by
  have hmean := meanSize_ok hne
  have hlen : rt.aggSizes.length ≠ 0 := by simpa using hne
  constructor
  · intro hz fuel
    cases ht : tile rt fuel op inDf with
    | error err => exact ⟨err, rfl⟩
    | ok r =>
      obtain ⟨fin, hplan, -⟩ := tile_ok ht
      rw [tilePlan_auto hm hn] at hplan
      obtain ⟨e, s, x, he, hs, hx, hx0, -⟩ := buildTreeAndShuffleChunks_ok (tileAuto_ok hplan).1
      obtain ⟨⟨k, -, hk, -⟩, -⟩ := treeLoop_estimate hs
      have he0 : e = 0 := by
        rw [hmean] at he; cases he; exact (PyFloat.ofDiv_eq_zero_iff hlen).mpr (by simp [hz])
      exact (hx0 (Option.some.inj (hx.symm.trans hk) ▸ (concatSizeAfter_eq_zero_iff (by omega) k).mpr he0)).elim
  · intro hz
    have he0 : PyFloat.ofDiv rt.aggSizes.sum rt.aggSizes.length ≠ 0 :=
      (PyFloat.ofDiv_eq_zero_iff hlen).not.mpr (by exact_mod_cast hz)
    obtain ⟨s, hs⟩ := treeLoop_ok (L := some (combineChunkLimit op)) hc inDf.nChunks
      ⟨probeChunks op inDf rt.recorderName ++
        genMapChunks op (inDf.chunks.drop (sliceIndex inDf.nChunks op.combineSize)),
        some (PyFloat.ofDiv rt.aggSizes.sum rt.aggSizes.length)⟩ (by simp only [length_autoChunks]; omega)
    obtain ⟨⟨k, -, hk, -⟩, -⟩ := treeLoop_estimate hs
    have hs0 : s.chunks ≠ [] :=
      treeLoop_ne_nil (by omega) hs (List.ne_nil_of_length_pos (by simp only [length_autoChunks]; omega))
    rw [tile_eq (tilePlan_auto_eq hm hn hmean hs hk ((concatSizeAfter_eq_zero_iff (by omega) k).not.mpr he0))]
    split_ifs
    · simp [Finish.build, buildOutTileable, List.isEmpty_iff, hs0, Except.map]
    · exact ⟨_, rfl⟩

theorem auto_tile_fails_iff_sizes_zero_three_chunks :
    (⟨"auto", 2, 40, true, .dataframe, 1⟩ : DataFrameGroupByAgg).method = "auto" ∧ (2 : Int) ≤ 2 ∧ (2 : Int) < 3 ∧
      [0, 0] ≠ [] ∧
      (([0, 0] : List Nat).sum = 0 → ∀ fuel, ∃ err, tile ⟨[], "r", [0, 0]⟩ fuel ⟨"auto", 2, 40, true, .dataframe, 1⟩ ⟨3, true⟩ = .error err) ∧
      (([0, 0] : List Nat).sum ≠ 0 → ∃ r, tile ⟨[], "r", [0, 0]⟩ 3 ⟨"auto", 2, 40, true, .dataframe, 1⟩ ⟨3, true⟩ = .ok r) :=
  ⟨rfl, le_refl 2, by decide, by decide,
    @auto_tile_fails_iff_sizes_zero ⟨[], "r", [0, 0]⟩ _ _ rfl (le_refl 2) (by decide) (by decide)⟩

/-! ## Declared counts -/

/-- **The partition counts of a shuffled tiling**: every count an operand of its plan declares (`shuffle_size`,
`n_partition`, `n_reducers`) is the number `n` of shuffled chunks, except the `shuffle_size` of the sort-shuffle map
operands, which is the number of input chunks. -/
theorem shuffle_declared_counts {as : List Chunk} {objs : List String}
    (h : tilePlan rt fuel op inDf = .ok (.shuffle as, objs)) :
    ∀ c ∈ (performShuffle op inDf as).chunks, ∀ o ∈ c.operands, ∀ k ∈ o.declaredCounts,
      k = as.length ∨ o = .sortShuffleMap inDf.nChunks as.length ∧ k = inDf.nChunks :=
  declaredCounts_performShuffle (layout_tilePlan h).inTree

theorem shuffle_declared_counts_three_chunks :
    tilePlan ⟨[], "", []⟩ 0 ⟨"shuffle", 2, 1024, true, .dataframe, 1⟩ ⟨3, true⟩ =
        .ok (.shuffle (genMapChunks ⟨"shuffle", 2, 1024, true, .dataframe, 1⟩ (InputTileable.chunks ⟨3, true⟩)), []) ∧
      ∀ c ∈ (performShuffle ⟨"shuffle", 2, 1024, true, .dataframe, 1⟩ ⟨3, true⟩
          (genMapChunks ⟨"shuffle", 2, 1024, true, .dataframe, 1⟩ (InputTileable.chunks ⟨3, true⟩))).chunks,
        ∀ o ∈ c.operands, ∀ k ∈ o.declaredCounts, k = 3 ∨ o = .sortShuffleMap 3 3 ∧ k = 3 :=
  ⟨rfl, @shuffle_declared_counts ⟨[], "", []⟩ 0 _ _ _ _ rfl⟩

set_option maxRecDepth 2000 in
/-- With ten input chunks, `combine_size = 2`, `chunk_store_limit = 40` and recorded sizes `[3, 3]`, two rounds leave
three chunks at the estimate `12`, above the ceiling `10`; the tiling shuffles them, and every output chunk reaches
sort-shuffle map operands that declare `shuffle_size = 10` for `n_partition = 3` buckets. -/
theorem auto_shuffle_declares_input_count :
    ∃ as objs, tilePlan ⟨[], "r", [3, 3]⟩ 2 ⟨"auto", 2, 40, true, .dataframe, 1⟩ ⟨10, true⟩ = .ok (.shuffle as, objs) ∧
      tile ⟨[], "r", [3, 3]⟩ 2 ⟨"auto", 2, 40, true, .dataframe, 1⟩ ⟨10, true⟩ = .ok (performShuffle ⟨"auto", 2, 40, true, .dataframe, 1⟩ ⟨10, true⟩ as, objs) ∧
      as.length = 3 ∧
      ∀ c ∈ (performShuffle ⟨"auto", 2, 40, true, .dataframe, 1⟩ ⟨10, true⟩ as).chunks, Operand.sortShuffleMap 10 3 ∈ c.operands := by
  have hs : treeLoop 2 (some (combineChunkLimit ⟨"auto", 2, 40, true, .dataframe, 1⟩)) 2
      ⟨probeChunks ⟨"auto", 2, 40, true, .dataframe, 1⟩ ⟨10, true⟩ "r" ++ genMapChunks ⟨"auto", 2, 40, true, .dataframe, 1⟩
        ((InputTileable.chunks ⟨10, true⟩).drop (sliceIndex 10 2)), some 3⟩ =
      .ok ⟨treeRound 2 (treeRound 2 (probeChunks ⟨"auto", 2, 40, true, .dataframe, 1⟩ ⟨10, true⟩ "r" ++
        genMapChunks ⟨"auto", 2, 40, true, .dataframe, 1⟩ ((InputTileable.chunks ⟨10, true⟩).drop 2))),
        some (((3 : PyFloat).mulInt 2).mulInt 2)⟩ := by
    rw [combineChunkLimit_forty, treeLoop_some_succ (by decide) (by rw [length_autoChunks]; decide) (by decide),
      treeLoop_some_succ (by decide) (by rw [length_treeRound, length_autoChunks]; decide) (by decide),
      treeLoop_some_stop (.inl (by decide))]
    rfl
  have hplan := @tilePlan_auto_eq ⟨[], "r", [3, 3]⟩ 2 ⟨"auto", 2, 40, true, .dataframe, 1⟩ ⟨10, true⟩ 3
    (((3 : PyFloat).mulInt 2).mulInt 2) _ rfl (by decide) (meanSize_eq (by decide) (by decide)) hs rfl (by decide)
  rw [combineChunkLimit_forty, if_neg (by decide)] at hplan
  have hlen : (treeRound 2 (treeRound 2 (probeChunks ⟨"auto", 2, 40, true, .dataframe, 1⟩ ⟨10, true⟩ "r" ++
      genMapChunks ⟨"auto", 2, 40, true, .dataframe, 1⟩ ((InputTileable.chunks ⟨10, true⟩).drop 2)))).length = 3 := by
    rw [length_treeRound, length_treeRound]; decide
  refine ⟨_, _, hplan, by rw [tile_eq hplan]; rfl, hlen, ?_⟩
  have hmem := @sortShuffleMap_mem_performShuffle ⟨"auto", 2, 40, true, .dataframe, 1⟩ ⟨10, true⟩ _ rfl (by decide)
    (List.ne_nil_of_length_pos (by rw [hlen]; decide))
  rwa [hlen] at hmem

end Auto

end GroupByAgg
