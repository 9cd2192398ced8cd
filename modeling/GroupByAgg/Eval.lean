import GroupByAgg.Plan
import Mathlib.Algebra.BigOperators.Group.List

/-!
# What a plan computes

Every operand of a plan is read as an operation on partial aggregates drawn from a commutative monoid `M`: chunk `i`
of the input carries `v i`, `DataFrameGroupByAgg` at every stage and `DataFrameConcat` sum their inputs, a shuffle
map operand splits its value into one part per reducer (`Splitter`), the proxy gathers the parts of every map
operand, and the reducer of bucket `b` sums part `b` of all of them. Sampling and pivot operands carry keys, not
aggregates.

A plan is right when its output chunks sum to the sum of the inputs, for every `M`, `v` and splitter: over the free
commutative monoid this says that every input chunk is aggregated exactly once. `sum_buckets` is the shuffle's
share of it: `n` reducers over map operands split `n` ways give back the sum of the map operands.
-/

namespace GroupByAgg

variable {M : Type} [AddCommMonoid M]

/-- How a shuffle map operand splits a partial aggregate into `k` parts, one per reducer. -/
structure Splitter (M : Type) [AddCommMonoid M] where
  split : M → Nat → List M
  length_split : ∀ m k, (split m k).length = k
  sum_split : ∀ m k, 0 < k → (split m k).sum = m

/-- The split that sends a whole partial aggregate to the first reducer. -/
def Splitter.first : Splitter M where
  split m k := if k = 0 then [] else m :: List.replicate (k - 1) 0
  length_split m k := by cases k <;> simp
  sum_split m k hk := by cases k <;> simp_all [nsmul_zero]

/-- What a chunk holds: a partial aggregate, the parts of a map operand, or the parts of every map operand. -/
inductive Val (M : Type)
  | data (m : M)
  | parts (ps : List M)
  | exchange (pss : List (List M))

namespace Val

/-- The partial aggregate a value amounts to. -/
def total : Val M → M
  | .data m => m
  | .parts ps => ps.sum
  | .exchange pss => (pss.map List.sum).sum

/-- The parts a map operand hands to the proxy. -/
def buckets : Val M → List M
  | .parts ps => ps
  | v => [v.total]

/-- What the reducer of bucket `b` reads from the proxy. -/
def bucket (b : Nat) : Val M → M
  | .exchange pss => (pss.map (·.getD b 0)).sum
  | _ => 0

@[simp] theorem total_data (m : M) : (data m).total = m := rfl

@[simp] theorem buckets_parts (ps : List M) : (parts ps).buckets = ps := rfl

@[simp] theorem bucket_exchange (b : Nat) (pss : List (List M)) :
    (exchange pss).bucket b = (pss.map (·.getD b 0)).sum := rfl

end Val

/-- The operation an operand performs on the values of its inputs. -/
@[simp] def Operand.apply (sp : Splitter M) : Operand → List (Val M) → Val M
  | .groupByAgg _ _, vs => .data (vs.map Val.total).sum
  | .concat, vs => .data (vs.map Val.total).sum
  | .groupByMap k, vs => .parts (sp.split (vs.map Val.total).sum k)
  | .sortShuffleMap _ k, vs => .parts (sp.split (vs.map Val.total).sum k)
  | .groupByReduce b _, vs => .data (vs.map (Val.bucket (b.headD 0))).sum
  | .sortShuffleReduce b _, vs => .data (vs.map (Val.bucket (b.headD 0))).sum
  | .shuffleProxy, vs => .exchange (vs.map Val.buckets)
  | .psrsSample _, _ => .data 0
  | .concatPivot _, _ => .data 0

/-- The value of a chunk when input chunk `i` carries `v i`. -/
def Chunk.eval (sp : Splitter M) (v : Nat → M) : Chunk → Val M
  | .source i _ => .data (v i)
  | .node op _ ins => op.apply sp (evalAll ins)
where
  /-- The values of a list of chunks. -/
  evalAll : List Chunk → List (Val M)
    | [] => []
    | c :: cs => c.eval sp v :: evalAll cs

namespace Chunk

variable (sp : Splitter M) (v : Nat → M)

@[simp] theorem evalAll_eq (cs : List Chunk) : eval.evalAll sp v cs = cs.map (eval sp v) := by
  induction cs with
  | nil => rfl
  | cons c cs ih => simp [eval.evalAll, ih]

@[simp] theorem eval_source (i : Nat) (idx : Index) : (source i idx).eval sp v = .data (v i) := rfl

@[simp] theorem eval_node (op : Operand) (idx : Index) (ins : List Chunk) :
    (node op idx ins).eval sp v = op.apply sp (ins.map (eval sp v)) := by
  simp [eval]

@[simp] theorem eval_withIndex (c : Chunk) (idx : Index) : (c.withIndex idx).eval sp v = c.eval sp v := by
  cases c <;> simp [withIndex]

/-- The partial aggregate a chunk amounts to. -/
def value (c : Chunk) : M := (c.eval sp v).total

/-- An operand that sums its inputs gives a chunk worth the sum of their values. -/
theorem value_node_sum {op : Operand} (hop : ∃ s r, op = .groupByAgg s r ∨ op = .concat) (idx : Index)
    (ins : List Chunk) : (node op idx ins).value sp v = (ins.map (value sp v)).sum := by
  obtain ⟨s, r, rfl | rfl⟩ := hop <;> simp [value, Function.comp_def] <;> rfl

@[simp] theorem value_withIndex (c : Chunk) (idx : Index) : (c.withIndex idx).value sp v = c.value sp v := by
  simp [value]

end Chunk

/-! ## Buckets -/

/-- Part `b` of each list, summed over all `b` below the length, is the list's sum. -/
theorem sum_range_getD (ps : List M) : ((List.range ps.length).map fun b => ps.getD b 0).sum = ps.sum := by
  induction ps with
  | nil => rfl
  | cons p ps ih =>
    simp only [List.length_cons, List.range_succ_eq_map, List.map_cons, List.map_map, Function.comp_def,
      List.getD_cons_zero, List.getD_cons_succ, List.sum_cons, ih]

/-- **Reducers read every part once**: `n` reducers, reducer `b` summing part `b` of lists of length `n`, together
sum to the sum of all the lists. -/
theorem sum_buckets (n : Nat) (pss : List (List M)) (h : ∀ ps ∈ pss, ps.length = n) :
    ((List.range n).map fun b => (pss.map (·.getD b 0)).sum).sum = (pss.map List.sum).sum := by
  induction pss with
  | nil => simp [nsmul_zero]
  | cons ps pss ih =>
    have hps : ps.length = n := h ps (by simp)
    simp only [List.map_cons, List.sum_cons, List.sum_map_add]
    rw [ih (fun qs hq => h qs (by simp [hq])), ← hps, sum_range_getD]

end GroupByAgg
