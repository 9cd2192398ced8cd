import GroupByAgg.Tile

/-!
# Every tiling aggregates each input chunk once

A chunk list has the `Layout` of a plan when every path in it is rooted at one map-stage operand and chunk `i`
sits at grid position `i`, and it is `Staged` when besides its values sum to the sum of the inputs (over every
commutative monoid, every input valuation and every shuffle split). The map chunks are staged
(`staged_genMapChunks`), and so is the probe with the rest of the map chunks (`staged_probe`); every round keeps the
layout, and a round with `combine_size > 0` keeps the sum (`Staged.treeRound`), hence every list a tiling hands to
its final stage has the layout (`layout_tilePlan`), and is staged when `combine_size ≥ 0` (`staged_tilePlan`): a
round over `range(0, n, c)` with `c < 0` drops every chunk.

* **Exactly once** (`tile_aggregates_each_chunk_once`): with `combine_size ≥ 0`, every tiling's output sums to the
  sum of the inputs, and every path from an input chunk to an output chunk passes one map-stage, then only
  combine-stage, then one agg-stage `DataFrameGroupByAgg` operand.
* **Shuffle layout** (`shuffle_output_grid`): a tiling that ends in `_perform_shuffle` over `n` chunks has `n`
  output chunks, at the grid positions of its `nsplits`, chunk `i` over the reducer of bucket `(i, 0)`.
* **Termination** (`tree_loop_terminates`): for `combine_size ≥ 2` the loop stops within `n` rounds, and method
  `tree` returns a plan; `combine_size = 1` and a negative `combine_size`, which `agg` lets through, never do
  (`small_combine_size_never_tiles`).
-/

namespace GroupByAgg

/-- The layout of every chunk list a tiling hands to its final stage. -/
structure Layout (op : DataFrameGroupByAgg) (cs : List Chunk) : Prop where
  mapRooted : ∀ c ∈ cs, c.MapRooted
  numbered : Numbered op.outputType cs
  inTree : ∀ c ∈ cs, ∀ o ∈ c.operands, o.InTree

/-- What every chunk list a tiling with `combine_size ≥ 0` hands to its final stage satisfies. -/
structure Staged (op : DataFrameGroupByAgg) (inDf : InputTileable) (cs : List Chunk) extends Layout op cs : Prop where
  sum_value : ∀ {M : Type} [AddCommMonoid M] (sp : Splitter M) (v : Nat → M),
    (cs.map (Chunk.value sp v)).sum = ((List.range inDf.nChunks).map v).sum

section Staged

variable {op : DataFrameGroupByAgg} {inDf : InputTileable}

theorem numbered_genMapChunks : Numbered op.outputType (genMapChunks op inDf.chunks) := by
  intro i c h
  simp only [genMapChunks, InputTileable.chunks, List.map_map, Function.comp_def] at h
  obtain ⟨-, rfl⟩ := getElem?_map_range_eq_some h
  cases op.outputType <;> cases inDf.isFrame <;> rfl

theorem staged_genMapChunks : Staged op inDf (genMapChunks op inDf.chunks) where
  sum_value sp v := by rw [value_genMapChunks]
  mapRooted := mapRooted_genMapChunks op inDf
  numbered := numbered_genMapChunks
  inTree := by simp [genMapChunks, InputTileable.chunks, Operand.InTree]

theorem numbered_treeRound (out : OutputType) (c : Nat) (cs : List Chunk) : Numbered out (treeRound c cs) := by
  intro i d h
  obtain ⟨-, rfl⟩ := getElem?_map_range_eq_some h
  exact aggIndex_gridIndex out i

/-- **Step lemma**: every round keeps the layout. -/
theorem Layout.treeRound (c : Nat) {cs : List Chunk} (h : Layout op cs) : Layout op (GroupByAgg.treeRound c cs) where
  mapRooted := mapRooted_treeRound c h.mapRooted
  numbered := numbered_treeRound _ c cs
  inTree d hd o ho := by
    rcases mem_operands_treeRound hd ho with rfl | rfl | ⟨a, ha, ho⟩
    · trivial
    · trivial
    · exact h.inTree a ha o ho

/-- **Step lemma**: a round with `c > 0` keeps a list staged. -/
theorem Staged.treeRound {c : Nat} (hc : 0 < c) {cs : List Chunk} (h : Staged op inDf cs) :
    Staged op inDf (GroupByAgg.treeRound c cs) :=
  { h.toLayout.treeRound c with sum_value := fun sp v => by rw [value_treeRound sp v hc, h.sum_value] }

@[simp] theorem index_setSizeRecorder (name : String) (c : Chunk) : (setSizeRecorder name c).index = c.index := by
  unfold setSizeRecorder; split <;> rfl

@[simp] theorem stagePaths_setSizeRecorder (name : String) (c : Chunk) :
    (setSizeRecorder name c).stagePaths = c.stagePaths := by
  unfold setSizeRecorder; split <;> simp [Operand.aggStage]

@[simp] theorem value_setSizeRecorder {M : Type} [AddCommMonoid M] (sp : Splitter M) (v : Nat → M) (name : String)
    (c : Chunk) : (setSizeRecorder name c).value sp v = c.value sp v := by
  unfold setSizeRecorder; split <;> simp [Chunk.value]

theorem mem_operands_setSizeRecorder {name : String} {c : Chunk} {o : Operand}
    (ho : o ∈ (setSizeRecorder name c).operands) : o ∈ c.operands ∨ ∃ s, o = .groupByAgg s (some name) := by
  unfold setSizeRecorder at ho
  split at ho
  · simp only [Chunk.operands_node, List.mem_cons] at ho ⊢
    rcases ho with rfl | ho
    · exact .inr ⟨_, rfl⟩
    · exact .inl (.inr ho)
  · exact .inl ho

/-- The probe and the rest of the map chunks are the map chunks, but for the recorder's name. -/
theorem staged_probe (name : String) :
    Staged op inDf (probeChunks op inDf name ++
      genMapChunks op (inDf.chunks.drop (sliceIndex inDf.nChunks op.combineSize))) := by
  have hall : Staged op inDf (genMapChunks op inDf.chunks) := staged_genMapChunks
  rw [← List.take_append_drop (sliceIndex inDf.nChunks op.combineSize) inDf.chunks, genMapChunks_append] at hall
  refine ⟨⟨fun c hc => ?_, fun i c hc => ?_, fun c hc o ho => ?_⟩, fun sp v => ?_⟩
  · simp only [probeChunks, List.mem_append, List.mem_map] at hc
    rcases hc with ⟨d, hd, rfl⟩ | hc
    · simpa [Chunk.MapRooted] using hall.mapRooted d (List.mem_append_left _ hd)
    · exact hall.mapRooted c (List.mem_append_right _ hc)
  · exact hall.numbered.of_map_index (by simp [probeChunks, Function.comp_def]) i c hc
  · simp only [probeChunks, List.mem_append, List.mem_map] at hc
    rcases hc with ⟨d, hd, rfl⟩ | hc
    · rcases mem_operands_setSizeRecorder ho with ho | ⟨s, rfl⟩
      · exact hall.inTree d (List.mem_append_left _ hd) o ho
      · trivial
    · exact hall.inTree c (List.mem_append_right _ hc) o ho
  · rw [← hall.sum_value sp v]
    simp [probeChunks, Function.comp_def]

/-- **Run lemma of a tiling**: what the map chunks and the probe with the other map chunks satisfy, and every round
the loop runs keeps, holds of the list a tiling hands to its final stage. -/
theorem tilePlan_induction (P : List Chunk → Prop) {rt : Runtime} (hmap : P (genMapChunks op inDf.chunks))
    (hprobe : P (probeChunks op inDf rt.recorderName ++
      genMapChunks op (inDf.chunks.drop (sliceIndex inDf.nChunks op.combineSize))))
    (hround : ∀ cs, op.combineSize ≠ 0 → P cs → P (treeRound op.combineSize.toNat cs)) {fuel : Nat}
    {fin : Finish} {objs : List String} (h : tilePlan rt fuel op inDf = .ok (fin, objs)) : P fin.chunks := by
  have hloop : ∀ {L fuel cs e} {s : TreeState}, treeLoop op.combineSize L fuel ⟨cs, e⟩ = .ok s → P cs →
      P s.chunks := fun hs hcs =>
    (treeLoop_induction (fun s => P s.chunks) (fun _ _ hc hs => hround _ hc hs) hs hcs).1
  have htree : ∀ objs', (tileWithTree fuel op inDf).map (·, objs') = .ok (fin, objs) → P fin.chunks :=
    fun objs' ht => by
      obtain ⟨fin', hfin, hp⟩ := Except.map_eq_ok.mp ht
      obtain ⟨s, hs, rfl⟩ := tileWithTree_ok hfin
      cases (Prod.mk.inj hp).1
      exact hloop hs hmap
  unfold tilePlan at h
  split_ifs at h
  · exact htree _ h
  · obtain ⟨hb, -⟩ := tileAuto_ok h
    obtain ⟨e, s, x, -, hs, -, -, rfl⟩ := buildTreeAndShuffleChunks_ok hb
    have hst := hloop hs hprobe
    split_ifs <;> exact hst
  · cases h; exact hmap
  · exact htree _ h

/-- Every chunk list a tiling hands to its final stage has the layout of a plan. -/
theorem layout_tilePlan {rt : Runtime} {fuel : Nat} {fin : Finish} {objs : List String}
    (h : tilePlan rt fuel op inDf = .ok (fin, objs)) : Layout op fin.chunks :=
  tilePlan_induction (Layout op) staged_genMapChunks.toLayout (staged_probe _).toLayout
    (fun _ _ hs => hs.treeRound _) h

/-- With `combine_size ≥ 0`, every chunk list a tiling hands to its final stage is staged. -/
theorem staged_tilePlan (hc : 0 ≤ op.combineSize) {rt : Runtime} {fuel : Nat} {fin : Finish} {objs : List String}
    (h : tilePlan rt fuel op inDf = .ok (fin, objs)) : Staged op inDf fin.chunks :=
  tilePlan_induction (Staged op inDf) staged_genMapChunks (staged_probe _)
    (fun _ hc0 hs => hs.treeRound (by omega)) h

end Staged

/-! ## Exactly once -/

/-- The output chunks of every tiling with `combine_size ≥ 0` sum to the sum of the inputs. -/
theorem sum_value_tile {M : Type} [AddCommMonoid M] (sp : Splitter M) (v : Nat → M) {rt : Runtime} {fuel : Nat}
    {op : DataFrameGroupByAgg} {inDf : InputTileable} {out : Tileable} {objs : List String}
    (hc : 0 ≤ op.combineSize) (h : tile rt fuel op inDf = .ok (out, objs)) :
    (out.chunks.map (Chunk.value sp v)).sum = ((List.range inDf.nChunks).map v).sum := by
  obtain ⟨fin, hplan, hbuild⟩ := tile_ok h
  have hst := staged_tilePlan hc hplan
  cases fin with
  | tree cs => exact (value_buildOutTileable sp v hbuild).trans (hst.sum_value sp v)
  | shuffle cs => cases hbuild; exact (value_performShuffle sp v op inDf cs).trans (hst.sum_value sp v)

/-- Every path to an output chunk of every tiling is finalized. -/
theorem finalizedAll_tile {rt : Runtime} {fuel : Nat} {op : DataFrameGroupByAgg} {inDf : InputTileable}
    {out : Tileable} {objs : List String} (h : tile rt fuel op inDf = .ok (out, objs)) :
    ∀ c ∈ out.chunks, c.FinalizedAll := by
  obtain ⟨fin, hplan, hbuild⟩ := tile_ok h
  have hst := layout_tilePlan hplan
  cases fin with
  | tree cs => exact finalizedAll_buildOutTileable hbuild hst.mapRooted
  | shuffle cs => cases hbuild; exact finalizedAll_performShuffle hst.mapRooted

/-- **Every input chunk is aggregated exactly once and finalized once**: for `combine_size ≥ 0`, over every
commutative monoid, input valuation and shuffle split, the output chunks of every tiling sum to
`v 0 + … + v (n - 1)`, and every path from an input chunk to an output chunk passes one map-stage, then only
combine-stage, then one agg-stage operand. -/
theorem tile_aggregates_each_chunk_once {M : Type} [AddCommMonoid M] (sp : Splitter M) (v : Nat → M) {rt : Runtime}
    {fuel : Nat} {op : DataFrameGroupByAgg} {inDf : InputTileable} {out : Tileable} {objs : List String}
    (hc : 0 ≤ op.combineSize) (h : tile rt fuel op inDf = .ok (out, objs)) :
    (out.chunks.map (Chunk.value sp v)).sum = ((List.range inDf.nChunks).map v).sum ∧
      ∀ c ∈ out.chunks, c.FinalizedAll :=
  ⟨sum_value_tile sp v hc h, finalizedAll_tile h⟩

theorem tile_three_chunks_by_tree :
    ∃ out objs, tile ⟨[], "", []⟩ 3 ⟨"tree", 2, 1024, true, .dataframe, 1⟩ ⟨3, true⟩ = .ok (out, objs) ∧
      (0 : Int) ≤ 2 ∧ ((out.chunks.map (Chunk.value Splitter.first id)).sum = ((List.range 3).map id).sum ∧
        ∀ c ∈ out.chunks, c.FinalizedAll) := by
  obtain ⟨p, hp⟩ : ∃ p, tile ⟨[], "", []⟩ 3 ⟨"tree", 2, 1024, true, .dataframe, 1⟩ ⟨3, true⟩ = .ok p := ⟨_, rfl⟩
  exact ⟨p.1, p.2, hp, by decide, tile_aggregates_each_chunk_once Splitter.first id (by decide) hp⟩

/-! ## The shuffle's layout -/

/-- **Layout of every shuffled tiling**: when a tiling ends in `_perform_shuffle` over `n` chunks (method `shuffle`,
or `auto` after any number of rounds), its output has `n` chunks, at exactly the positions `(i, 0)` (a Series'
`(i,)`) of the `n`-row grid of its `nsplits`, and output chunk `i` is an agg-stage operand over the reducer of
bucket `(i, 0)`. -/
theorem shuffle_output_grid {rt : Runtime} {fuel : Nat} {op : DataFrameGroupByAgg} {inDf : InputTileable}
    {as : List Chunk} {objs : List String} (h : tilePlan rt fuel op inDf = .ok (.shuffle as, objs)) :
    tile rt fuel op inDf = .ok (performShuffle op inDf as, objs) ∧
    (performShuffle op inDf as).chunks.length = as.length ∧
    (performShuffle op inDf as).chunks.map Chunk.index = (List.range as.length).map op.outputType.gridIndex ∧
    (performShuffle op inDf as).nsplits = op.outputType.nsplits op.nColumns as.length ∧
    ∀ i c, (performShuffle op inDf as).chunks[i]? = some c →
      ∃ r, r.reducerIndex = some [i, 0] ∧ c = .node (.groupByAgg .agg none) (op.outputType.gridIndex i) [r] := by
  have hnum : Numbered op.outputType as := (layout_tilePlan h).numbered
  obtain ⟨hlen, hsplits, hat⟩ := performShuffle_layout inDf hnum
  refine ⟨by simp [tile, h, Except.bind, Finish.build, Except.map], hlen,
    List.ext_getElem (by simp [hlen]) fun i hi _ => ?_, hsplits, hat⟩
  obtain ⟨r, -, hc⟩ := hat i _ (List.getElem?_eq_getElem (by simpa using hi))
  simp [hc]

theorem shuffle_output_grid_three_chunks :
    ∃ as objs, tilePlan ⟨[], "", []⟩ 0 ⟨"shuffle", 2, 1024, true, .dataframe, 1⟩ ⟨3, true⟩ = .ok (.shuffle as, objs) ∧
      (tile ⟨[], "", []⟩ 0 ⟨"shuffle", 2, 1024, true, .dataframe, 1⟩ ⟨3, true⟩ =
          .ok (performShuffle ⟨"shuffle", 2, 1024, true, .dataframe, 1⟩ ⟨3, true⟩ as, objs) ∧
        (performShuffle ⟨"shuffle", 2, 1024, true, .dataframe, 1⟩ ⟨3, true⟩ as).chunks.length = as.length ∧
        (performShuffle ⟨"shuffle", 2, 1024, true, .dataframe, 1⟩ ⟨3, true⟩ as).chunks.map Chunk.index =
          (List.range as.length).map OutputType.dataframe.gridIndex ∧
        (performShuffle ⟨"shuffle", 2, 1024, true, .dataframe, 1⟩ ⟨3, true⟩ as).nsplits =
          OutputType.dataframe.nsplits 1 as.length ∧
        ∀ i c, (performShuffle ⟨"shuffle", 2, 1024, true, .dataframe, 1⟩ ⟨3, true⟩ as).chunks[i]? = some c →
          ∃ r, r.reducerIndex = some [i, 0] ∧ c = .node (.groupByAgg .agg none) (OutputType.dataframe.gridIndex i) [r]) := by
  exact ⟨genMapChunks ⟨"shuffle", 2, 1024, true, .dataframe, 1⟩ (InputTileable.chunks ⟨3, true⟩), [], rfl,
    shuffle_output_grid rfl⟩

/-! ## Termination -/

/-- **The loop stops for `combine_size ≥ 2`**: within `len(chunks)` rounds, with or without a ceiling and for every
estimate; so method `tree` returns a plan for every input of at least one chunk. -/
theorem tree_loop_terminates {c : Int} (hc : 2 ≤ c) :
    (∀ (chunks : List Chunk) (L e : Option PyFloat), ∃ s, treeLoop c L chunks.length ⟨chunks, e⟩ = .ok s) ∧
    ∀ (rt : Runtime) (op : DataFrameGroupByAgg) (inDf : InputTileable), op.method = "tree" → op.combineSize = c →
      0 < inDf.nChunks → ∃ r, tile rt inDf.nChunks op inDf = .ok r := by
  have hloop : ∀ (chunks : List Chunk) (L e : Option PyFloat), ∃ s, treeLoop c L chunks.length ⟨chunks, e⟩ = .ok s :=
    fun chunks L e => treeLoop_ok hc _ _ (by simp)
  refine ⟨hloop, fun rt op inDf hm hc' hn => ?_⟩
  subst hc'
  obtain ⟨s, hs⟩ := hloop (genMapChunks op inDf.chunks) none none
  have hne : s.chunks ≠ [] := treeLoop_ne_nil (by omega) hs (by simpa [← List.length_pos] using hn)
  rw [length_genMapChunks, InputTileable.length_chunks] at hs
  have hplan : tilePlan rt inDf.nChunks op inDf = .ok (.tree s.chunks, rt.remoteObjects) := by
    simp [tilePlan, hm, tileWithTree_eq, hs, Except.map]
  simp [tile, hplan, Except.bind, Finish.build, buildOutTileable, hne, Except.map]

theorem tree_loop_terminates_two :
    (2 : Int) ≤ 2 ∧ ((∀ (chunks : List Chunk) (L e : Option PyFloat), ∃ s, treeLoop 2 L chunks.length ⟨chunks, e⟩ = .ok s) ∧
      ∀ (rt : Runtime) (op : DataFrameGroupByAgg) (inDf : InputTileable), op.method = "tree" → op.combineSize = 2 →
        0 < inDf.nChunks → ∃ r, tile rt inDf.nChunks op inDf = .ok r) :=
  ⟨le_refl 2, tree_loop_terminates (le_refl 2)⟩

/-- Method `tree` with a negative `combine_size` never tiles: the loop never stops. -/
theorem tile_tree_neg {rt : Runtime} {fuel : Nat} {op : DataFrameGroupByAgg} {inDf : InputTileable}
    (hm : op.method = "tree") (hc : op.combineSize < 0) : ¬ ∃ r, tile rt fuel op inDf = .ok r := fun ⟨r, h⟩ => by
  obtain ⟨fin, hplan, -⟩ := tile_ok h
  simp [tilePlan, hm, tileWithTree_eq, treeLoop_neg hc, Except.map] at hplan

/-- `agg` lets `combine_size=1` through, and the tree over two chunks then never stops; it lets a negative
`combine_size` through too, and the tree then never stops whatever the input. -/
theorem small_combine_size_never_tiles :
    agg ⟨4, 1024⟩ (some "tree") (some 1) true .dataframe 1 = .ok ⟨"tree", 1, 1024, true, .dataframe, 1⟩ ∧
      (¬ ∃ fuel r, tile ⟨[], "", []⟩ fuel ⟨"tree", 1, 1024, true, .dataframe, 1⟩ ⟨2, true⟩ = .ok r) ∧
      agg ⟨4, 1024⟩ (some "tree") (some (-1)) true .dataframe 1 = .ok ⟨"tree", -1, 1024, true, .dataframe, 1⟩ ∧
      ∀ (rt : Runtime) (fuel : Nat) (op : DataFrameGroupByAgg) (inDf : InputTileable), op.method = "tree" →
        op.combineSize < 0 → ¬ ∃ r, tile rt fuel op inDf = .ok r := by
  refine ⟨rfl, fun ⟨fuel, r, h⟩ => ?_, rfl, fun _ _ _ _ hm hc => tile_tree_neg hm hc⟩
  obtain ⟨fin, hplan, -⟩ := tile_ok h
  have hloop := treeLoop_one (s := ⟨genMapChunks ⟨"tree", 1, 1024, true, .dataframe, 1⟩
    (InputTileable.chunks ⟨2, true⟩), none⟩) (by decide) fuel
  simp [tilePlan, tileWithTree_eq, InputTileable.length_chunks, hloop, Except.map] at hplan

end GroupByAgg
