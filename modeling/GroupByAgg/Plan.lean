import Mathlib.Data.List.Basic

/-!
# Chunk plans of a groupby aggregation

The tiling of `DataFrameGroupByAgg` (`aggregation.py`) builds a graph of chunks: every chunk is the output of one
operand applied to its input chunks, at a position (`index`) of its tileable's grid. A chunk is a tree here: a chunk
that several operands read (the shuffle proxy, the pivot chunk) is repeated under each of its readers, which changes
neither what a chunk computes nor the paths that reach it.

The operands are those the tiling creates, each with the fields that the tiling sets and that later stages read:
the stage and the size recorder of `DataFrameGroupByAgg`, the partition counts and reducer indices of the shuffle
operands. `stagePaths` lists, for every path from an input chunk up to a chunk, the stages of the
`DataFrameGroupByAgg` operands on it; `operands` lists every operand a chunk reaches.
-/

namespace GroupByAgg

/-- A chunk's position in its tileable's grid: `(i, 0)` or `(i,)`. -/
abbrev Index := List Nat

/-- `OperandStage` of a `DataFrameGroupByAgg` operand. -/
inductive Stage
  | map
  | combine
  | agg
  deriving DecidableEq, Repr

/-- The operands of a groupby-aggregation plan, with the fields the tiling gives them. -/
inductive Operand
  /-- `DataFrameGroupByAgg` at a stage, with its `size_recorder_name`. -/
  | groupByAgg (stage : Stage) (sizeRecorderName : Option String)
  /-- `DataFrameConcat`. -/
  | concat
  /-- `DataFrameGroupByOperand(stage=map, shuffle_size=...)`. -/
  | groupByMap (shuffleSize : Nat)
  /-- `DataFrameGroupByOperand(stage=reduce, n_reducers=...)`, with the reducer index it reads. -/
  | groupByReduce (reducerIndex : Index) (nReducers : Nat)
  /-- `DataFrameGroupbySortShuffle(stage=map, shuffle_size=..., n_partition=...)`. -/
  | sortShuffleMap (shuffleSize nPartition : Nat)
  /-- `DataFrameGroupbySortShuffle(stage=reduce, reducer_index=..., n_reducers=...)`. -/
  | sortShuffleReduce (reducerIndex : Index) (nReducers : Nat)
  /-- `DataFrameShuffleProxy`. -/
  | shuffleProxy
  /-- `DataFramePSRSGroupbySample(n_partition=...)`. -/
  | psrsSample (nPartition : Nat)
  /-- `DataFrameGroupbyConcatPivot(n_partition=...)`. -/
  | concatPivot (nPartition : Nat)
  deriving DecidableEq, Repr

/-- The stage of a `DataFrameGroupByAgg` operand; other operands have none. -/
def Operand.aggStage : Operand → Option Stage
  | .groupByAgg s _ => some s
  | _ => none

/-- The partition counts an operand declares: `shuffle_size`, `n_partition`, `n_reducers`. -/
def Operand.declaredCounts : Operand → List Nat
  | .groupByMap k => [k]
  | .groupByReduce _ k => [k]
  | .sortShuffleMap s k => [s, k]
  | .sortShuffleReduce _ k => [k]
  | .psrsSample k => [k]
  | .concatPivot k => [k]
  | _ => []

/-- The reducer index of a reducer operand. -/
def Operand.reducerIndex : Operand → Option Index
  | .groupByReduce b _ => some b
  | .sortShuffleReduce b _ => some b
  | _ => none

/-- The operands of the tree part of a plan: `DataFrameGroupByAgg` and `DataFrameConcat`. -/
def Operand.InTree : Operand → Prop
  | .groupByAgg _ _ => True
  | .concat => True
  | _ => False

/-- The tree part declares no partition count. -/
theorem Operand.declaredCounts_of_inTree {o : Operand} (h : o.InTree) : o.declaredCounts = [] := by
  cases o <;> first | rfl | exact h.elim

/-- A chunk: chunk `i` of the input tileable, or an operand applied to input chunks. -/
inductive Chunk
  | source (i : Nat) (index : Index)
  | node (op : Operand) (index : Index) (inputs : List Chunk)
  deriving Repr

namespace Chunk

def index : Chunk → Index
  | .source _ idx => idx
  | .node _ idx _ => idx

/-- The reducer index of a chunk's operand, when it is a reducer. -/
def reducerIndex : Chunk → Option Index
  | .source _ _ => none
  | .node op _ _ => op.reducerIndex

/-- `c._index = index`. -/
def withIndex (c : Chunk) (index : Index) : Chunk :=
  match c with
  | .source i _ => .source i index
  | .node op _ ins => .node op index ins

@[simp] theorem index_withIndex (c : Chunk) (idx : Index) : (c.withIndex idx).index = idx := by
  cases c <;> rfl

@[simp] theorem index_node (op : Operand) (idx : Index) (ins : List Chunk) : (node op idx ins).index = idx := rfl

/-- For every path from an input chunk up to this chunk, the stages of its `DataFrameGroupByAgg` operands, this
chunk's first. -/
def stagePaths : Chunk → List (List Stage)
  | .source _ _ => [[]]
  | .node op _ ins => (allStagePaths ins).map (op.aggStage.toList ++ ·)
where
  /-- The paths of a list of chunks. -/
  allStagePaths : List Chunk → List (List Stage)
    | [] => []
    | c :: cs => c.stagePaths ++ allStagePaths cs

/-- The operands this chunk reaches, its own first. -/
def operands : Chunk → List Operand
  | .source _ _ => []
  | .node op _ ins => op :: allOperands ins
where
  /-- The operands a list of chunks reaches. -/
  allOperands : List Chunk → List Operand
    | [] => []
    | c :: cs => c.operands ++ allOperands cs

@[simp] theorem allStagePaths_eq (cs : List Chunk) : stagePaths.allStagePaths cs = cs.flatMap stagePaths := by
  induction cs with
  | nil => rfl
  | cons c cs ih => simp [stagePaths.allStagePaths, ih]

@[simp] theorem allOperands_eq (cs : List Chunk) : operands.allOperands cs = cs.flatMap operands := by
  induction cs with
  | nil => rfl
  | cons c cs ih => simp [operands.allOperands, ih]

@[simp] theorem stagePaths_source (i : Nat) (idx : Index) : (source i idx).stagePaths = [[]] := rfl

@[simp] theorem stagePaths_node (op : Operand) (idx : Index) (ins : List Chunk) :
    (node op idx ins).stagePaths = (ins.flatMap stagePaths).map (op.aggStage.toList ++ ·) := by
  simp [stagePaths]

@[simp] theorem operands_source (i : Nat) (idx : Index) : (source i idx).operands = [] := rfl

@[simp] theorem operands_node (op : Operand) (idx : Index) (ins : List Chunk) :
    (node op idx ins).operands = op :: ins.flatMap operands := by
  simp [operands]

theorem mem_operands_node {op : Operand} {idx : Index} {ins : List Chunk} {d : Chunk} (hd : d ∈ ins) {o : Operand}
    (ho : o ∈ d.operands) : o ∈ (node op idx ins).operands := by
  simp only [operands_node, List.mem_cons, List.mem_flatMap]
  exact .inr ⟨d, hd, ho⟩

theorem forall_operands_node {P : Operand → Prop} {op : Operand} {idx : Index} {ins : List Chunk} :
    (∀ o ∈ (node op idx ins).operands, P o) ↔ P op ∧ ∀ d ∈ ins, ∀ o ∈ d.operands, P o := by
  simp only [operands_node, List.forall_mem_cons, List.mem_flatMap, forall_exists_index, and_imp]
  exact and_congr_right fun _ => ⟨fun h d hd o ho => h o d hd ho, fun h o d hd ho => h d hd o ho⟩

@[simp] theorem stagePaths_withIndex (c : Chunk) (idx : Index) : (c.withIndex idx).stagePaths = c.stagePaths := by
  cases c <;> simp [withIndex]

@[simp] theorem operands_withIndex (c : Chunk) (idx : Index) : (c.withIndex idx).operands = c.operands := by
  cases c <;> simp [withIndex]

/-- The batch `chks` re-indexed `(j, 0)`, as `_build_tree_chunks` does before concatenating it. -/
def reindex (chks : List Chunk) : List Chunk := chks.enum.map fun (j, c) => c.withIndex [j, 0]

/-- What does not see indices does not see re-indexing. -/
theorem map_reindex {β : Type} (f : Chunk → β) (hf : ∀ c idx, f (c.withIndex idx) = f c) (chks : List Chunk) :
    (reindex chks).map f = chks.map f := by
  simp only [reindex, List.map_map, Function.comp_def, hf]
  conv_rhs => rw [← List.enum_map_snd chks, List.map_map]
  rfl

theorem flatMap_reindex {β : Type} (f : Chunk → List β) (hf : ∀ c idx, f (c.withIndex idx) = f c)
    (chks : List Chunk) : (reindex chks).flatMap f = chks.flatMap f := by
  rw [List.flatMap, List.flatMap, map_reindex f hf]

theorem mem_reindex {c : Chunk} {chks : List Chunk} (h : c ∈ reindex chks) : ∃ d ∈ chks, ∃ idx, c = d.withIndex idx := by
  obtain ⟨⟨j, d⟩, hd, rfl⟩ := List.mem_map.mp h
  exact ⟨d, List.snd_mem_of_mem_enum hd, _, rfl⟩

end Chunk

/-! ## Stages along paths -/

/-- The stages of a path from a map-stage operand up: combine-stage operands over one map-stage operand. -/
def Combined (p : List Stage) : Prop := ∃ k, p = List.replicate k .combine ++ [.map]

/-- The stages of a whole path: one agg-stage operand over combine-stage ones over one map-stage operand. -/
def Finalized (p : List Stage) : Prop := ∃ k, p = .agg :: (List.replicate k .combine ++ [.map])

namespace Chunk

/-- Every path from an input chunk to `c` passes one map-stage operand and after it only combine-stage ones. -/
def MapRooted (c : Chunk) : Prop := ∀ p ∈ c.stagePaths, Combined p

/-- Every path from an input chunk to `c` passes one map-stage, then combine-stage, then one agg-stage operand. -/
def FinalizedAll (c : Chunk) : Prop := ∀ p ∈ c.stagePaths, Finalized p

theorem mapRooted_withIndex {c : Chunk} (h : c.MapRooted) (idx : Index) : (c.withIndex idx).MapRooted := by
  simpa [MapRooted] using h

/-- An operand that is not a `DataFrameGroupByAgg` keeps the paths of its inputs. -/
theorem mapRooted_node_iff {op : Operand} {idx : Index} {ins : List Chunk} (hop : op.aggStage = none) :
    (node op idx ins).MapRooted ↔ ∀ c ∈ ins, c.MapRooted := by
  simp only [MapRooted, stagePaths_node, hop, Option.toList_none, List.nil_append, List.map_id', List.mem_flatMap,
    forall_exists_index, and_imp]
  exact ⟨fun h c hc p hp => h p c hc hp, fun h p c hc hp => h c hc p hp⟩

theorem mapRooted_node {op : Operand} {idx : Index} {ins : List Chunk} (h : ∀ c ∈ ins, c.MapRooted)
    (hop : op.aggStage = none := by rfl) : (node op idx ins).MapRooted :=
  (mapRooted_node_iff hop).mpr h

/-- A map-stage operand over an input chunk. -/
theorem mapRooted_map (r : Option String) (idx : Index) (c : Chunk) (hc : c.stagePaths = [[]]) :
    (node (.groupByAgg .map r) idx [c]).MapRooted := by
  intro p hp
  simp [hc, Operand.aggStage] at hp
  exact ⟨0, by simp [hp]⟩

/-- A combine-stage operand over chunks rooted at map-stage operands. -/
theorem mapRooted_combine (r : Option String) (idx : Index) {ins : List Chunk} (h : ∀ c ∈ ins, c.MapRooted) :
    (node (.groupByAgg .combine r) idx ins).MapRooted := by
  intro p hp
  simp only [stagePaths_node, Operand.aggStage, Option.toList_some, List.mem_map, List.mem_flatMap] at hp
  obtain ⟨q, ⟨c, hc, hq⟩, rfl⟩ := hp
  obtain ⟨k, rfl⟩ := h c hc q hq
  exact ⟨k + 1, by simp [List.replicate_succ]⟩

/-- An agg-stage operand over chunks rooted at map-stage operands finalizes every path. -/
theorem finalizedAll_agg (r : Option String) (idx : Index) {ins : List Chunk} (h : ∀ c ∈ ins, c.MapRooted) :
    (node (.groupByAgg .agg r) idx ins).FinalizedAll := by
  intro p hp
  simp only [stagePaths_node, Operand.aggStage, Option.toList_some, List.mem_map, List.mem_flatMap] at hp
  obtain ⟨q, ⟨c, hc, hq⟩, rfl⟩ := hp
  obtain ⟨k, rfl⟩ := h c hc q hq
  exact ⟨k, rfl⟩

end Chunk

/-! ## Tileables -/

/-- `OutputType` of the aggregation's result. -/
inductive OutputType
  | dataframe
  | series
  deriving DecidableEq, Repr

/-- Grid position `i` of a result: `(i, 0)` for a DataFrame, `(i,)` for a Series. -/
def OutputType.gridIndex : OutputType → Nat → Index
  | .dataframe, i => [i, 0]
  | .series, i => [i]

/-- `nsplits` of a result with `k` chunks along the rows, of unknown sizes (`NaN`, here `none`), and `nColumns`
columns for a DataFrame. -/
def OutputType.nsplits (nColumns k : Nat) : OutputType → List (List (Option Nat))
  | .dataframe => [List.replicate k none, [some nColumns]]
  | .series => [List.replicate k none]

/-- A tileable: its chunks and its `nsplits`, the sizes along each axis. -/
structure Tileable where
  chunks : List Chunk
  nsplits : List (List (Option Nat))
  deriving Repr

/-- The fields of the tileable-level `DataFrameGroupByAgg` that its tiling reads; `combine_size` is a signed
`Int32Field`, `sort` is `groupby_params["sort"]`, `outputType` is `output_types[0]` and `nColumns` is
`out_df.shape[1]`. -/
structure DataFrameGroupByAgg where
  method : String
  combineSize : Int
  chunkStoreLimit : Int
  sort : Bool
  outputType : OutputType
  nColumns : Nat
  deriving DecidableEq, Repr

/-! ## Failing computations -/

theorem Except.bind_eq_ok {ε α β : Type} {x : Except ε α} {f : α → Except ε β} {b : β} :
    x.bind f = .ok b ↔ ∃ a, x = .ok a ∧ f a = .ok b := by
  cases x <;> simp [Except.bind]

theorem Except.map_eq_ok {ε α β : Type} {x : Except ε α} {f : α → β} {b : β} :
    x.map f = .ok b ↔ ∃ a, x = .ok a ∧ f a = b := by
  cases x <;> simp [Except.map]

/-- What the tiling raises, or that it runs on: `outOfFuel` stands for a `while` loop that has not stopped. -/
inductive TileError
  /-- `NotImplementedError` for an unknown method. -/
  | notImplemented
  /-- `ZeroDivisionError`: the mean of no recorded sizes. -/
  | zeroDivision
  /-- `AssertionError`: a ceiling without a size estimate. -/
  | assertion
  /-- `ValueError: range() arg 3 must not be zero`. -/
  | rangeStepZero
  /-- `IndexError`: the first chunk of an empty list. -/
  | indexError
  /-- `ValueError`: `n` values unpacked into two names. -/
  | unpack (n : Nat)
  /-- `TypeError`: a chunk compared with a number. -/
  | typeError
  | outOfFuel
  deriving DecidableEq, Repr

/-- The input of the tiling after `build_concatenated_rows_frame`: `nChunks` chunks along the rows, a DataFrame's at
`(i, 0)` and a Series' at `(i,)`. -/
structure InputTileable where
  nChunks : Nat
  isFrame : Bool
  deriving DecidableEq, Repr

/-- `in_df.chunks`. -/
def InputTileable.chunks (d : InputTileable) : List Chunk :=
  (List.range d.nChunks).map fun i => .source i (if d.isFrame then [i, 0] else [i])

@[simp] theorem InputTileable.length_chunks (d : InputTileable) : d.chunks.length = d.nChunks := by
  simp [InputTileable.chunks]

/-- Entry `i` of a list built over `range n` is built from `i`. -/
theorem getElem?_map_range_eq_some {β : Type} {f : Nat → β} {n i : Nat} {b : β}
    (h : ((List.range n).map f)[i]? = some b) : i < n ∧ f i = b := by
  simp only [List.getElem?_map, Option.map_eq_some'] at h
  obtain ⟨j, hj, rfl⟩ := h
  obtain ⟨hi, rfl⟩ := List.getElem?_eq_some_iff.mp hj
  exact ⟨by simpa using hi, by simp⟩

end GroupByAgg
