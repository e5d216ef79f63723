/-
  SqliteEdge/Client.lean --- a request split over invocations, and merged.

  Source: `chunkPlan`, `mergeRuns` and `runOnWorker` of
  experiments/sqlite-edge-compare/lib/client.ts.

  `post c j body` is what copy `j` of chunk `c` comes to: the answer of the Worker,
  or a response that says why there is none, and the time it took.  Times are rational
  numbers; the summary of the timings is left out.
-/
import SupabaseLab.Library.JsString
import SupabaseLab.SqliteEdge.Exec

set_option autoImplicit false

namespace SupabaseLab.SqliteEdge

open Library

/-! ## Splitting -/

/-- The loop of `chunkPlan`. -/
def chunkLoop (per : Nat) : Nat → Nat → List Nat
  | 0, _ => []
  | fuel + 1, left => if 0 < left then min per left :: chunkLoop per fuel (left - per) else []

/-- Iterations per invocation so that iterations times statements stays under the cap. -/
def chunkPlan (iterations statements cap : Nat) : List Nat :=
  chunkLoop (max 1 (cap / max 1 statements)) iterations iterations

/-! ## Merging -/

structure RunResult where
  ok : Bool
  error : Option String
  iterations : Nat
  wallMs : ℚ
  ops : List OpResult
  lanes : List LaneInfo
  errors : List ErrorCount
  invocations : Nat
  colos : List String
  httpMs : List ℚ

/-- The operations of all parts, each with the invocation it comes from. -/
def mergeOps (parts : List RunResponse) : List OpResult :=
  parts.zipIdx.flatMap fun p => p.1.ops.map fun o => { o with inv := p.2 }

def mergeRuns (parts : List RunResponse) (httpMs : List ℚ) : Except String RunResult :=
  if parts = [] then .error "mergeRuns: nothing to merge"
  else
    let ops := mergeOps parts
    let lanes := parts.zipIdx.flatMap fun p =>
      p.1.lanes.map fun l => { l with lane := l.lane + p.2 * 1000 }
    let errs := (parts.filter fun p => !p.ok).filterMap (·.error)
    .ok
      { ok := parts.all (·.ok)
        error := if errs = [] then none else some ("; ".intercalate (distinct errs))
        iterations := (parts.map (·.iterations)).sum
        wallMs := (parts.map (·.wallMs)).sum
        ops := ops
        lanes := lanes
        errors := countErrors ops lanes
        invocations := parts.length
        colos := distinct ((parts.map (·.colo)).filter fun c => c ≠ "")
        httpMs := httpMs }

/-! ## Running -/

/-- The body sent for a chunk. -/
def chunkBody (req : RunRequest) (n offset : Nat) : RunBody where
  toRunRequest := { req with iterations := some n }
  iOffset := if offset = 0 then none else some offset

/-- The loop of `runOnWorker`: `k` copies of each chunk, one chunk after the other. -/
def runChunks (post : Nat → Nat → RunBody → RunResponse × ℚ) (req : RunRequest) (k : Nat) :
    Nat → Nat → List Nat → List (RunResponse × ℚ)
  | _, _, [] => []
  | c, offset, n :: rest =>
      (List.range k).map (fun j => post c j (chunkBody req n offset)) ++
        runChunks post req k (c + 1) (offset + n) rest

/-- `chunks`. -/
def chunksOf (req : RunRequest) : List Nat :=
  if req.noSplit = some true then [req.repeats]
  else chunkPlan req.repeats req.statements.length OPS_PER_INVOCATION

/-- `k`. -/
def copiesOf (invocations : Option Nat) : Nat := max 1 (invocations.getD 1)

def runOnWorker (post : Nat → Nat → RunBody → RunResponse × ℚ) (req : RunRequest)
    (invocations : Option Nat) : Except String RunResult :=
  let parts := runChunks post req (copiesOf invocations) 0 0 (chunksOf req)
  mergeRuns (parts.map Prod.fst) (parts.map Prod.snd)

/-! ## The plan covers the request -/

section Plan

variable {per fuel left iterations statements cap n : Nat}

theorem chunkLoop_sum (hper : 0 < per) (hfuel : left ≤ fuel) : (chunkLoop per fuel left).sum = left := by
  induction fuel generalizing left with
  | zero =>
    rw [Nat.le_zero.mp hfuel]
    rfl
  | succ fuel ih =>
    rw [chunkLoop]
    split
    · rename_i hleft
      have hrest : (chunkLoop per fuel (left - per)).sum = left - per := ih (by omega)
      rw [List.sum_cons, hrest]
      omega
    · rename_i hzero
      rw [List.sum_nil]
      omega

theorem chunkPlan_sum : (chunkPlan iterations statements cap).sum = iterations :=
  chunkLoop_sum (by omega) (Nat.le_refl _)

theorem mem_chunkLoop (h : n ∈ chunkLoop per fuel left) (hper : 0 < per) : 0 < n ∧ n ≤ per := by
  induction fuel generalizing left with
  | zero => cases h
  | succ fuel ih =>
    rw [chunkLoop] at h
    split at h
    · rcases List.mem_cons.mp h with rfl | h
      · omega
      · exact ih h
    · cases h

/-- No chunk is over the cap, unless a single iteration is. -/
theorem chunkPlan_capped (h : n ∈ chunkPlan iterations statements cap) (hcap : statements ≤ cap) :
    n * statements ≤ cap := by
  obtain ⟨-, hn⟩ := mem_chunkLoop h (by omega)
  rcases Nat.eq_zero_or_pos statements with rfl | hpos
  · omega
  · have hmax : max 1 statements = statements := by omega
    have hdiv : 1 ≤ cap / statements := (Nat.one_le_div_iff hpos).mpr hcap
    rw [hmax, Nat.max_eq_right hdiv] at hn
    calc n * statements ≤ cap / statements * statements := Nat.mul_le_mul_right _ hn
      _ ≤ cap := Nat.div_mul_le_self _ _

theorem chunksOf_sum (req : RunRequest) : (chunksOf req).sum = req.repeats := by
  unfold chunksOf
  split
  · rfl
  · exact chunkPlan_sum

end Plan

/-! ## What the merge keeps -/

section Merge

variable {parts : List RunResponse} {q : OpResult → Bool} {x : OpResult} {n : Nat}

/-- The operations of the parts, numbered from `n` on. -/
theorem mem_mergeOps : x ∈ mergeOps parts ↔
    ∃ p, parts[x.inv]? = some p ∧ ∃ o ∈ p.ops, x = { o with inv := x.inv } := by
  unfold mergeOps
  rw [List.mem_flatMap]
  constructor
  · rintro ⟨⟨p, inv⟩, hp, hx⟩
    obtain ⟨o, ho, rfl⟩ := List.mem_map.mp hx
    exact ⟨p, List.mem_zipIdx_iff_getElem?.mp hp, o, ho, rfl⟩
  · rintro ⟨p, hp, o, ho, hx⟩
    exact ⟨(p, x.inv), List.mem_zipIdx_iff_getElem?.mpr hp, List.mem_map.mpr ⟨o, ho, hx.symm⟩⟩

/-- A choice that does not look at the invocation can be made part by part. -/
theorem filter_mergeOps (hq : ∀ (o : OpResult) inv, q { o with inv := inv } = q o) :
    (mergeOps parts).filter q =
      parts.zipIdx.flatMap fun p => (p.1.ops.filter q).map fun o => { o with inv := p.2 } := by
  unfold mergeOps
  rw [List.filter_flatMap]
  refine List.flatMap_congr fun p _ => ?_
  rw [List.filter_map]
  exact congrArg _ (List.filter_congr fun o _ => hq o p.2)

theorem length_filter_mergeOps (hq : ∀ (o : OpResult) inv, q { o with inv := inv } = q o) :
    ((mergeOps parts).filter q).length = (parts.map fun p => (p.ops.filter q).length).sum := by
  rw [filter_mergeOps hq, List.length_flatMap]
  have hmap : parts.zipIdx.map (fun p => ((p.1.ops.filter q).map fun o => { o with inv := p.2 }).length) =
      (parts.zipIdx.map Prod.fst).map fun p => (p.ops.filter q).length := by
    rw [List.map_map]
    exact List.map_congr_left fun p _ => List.length_map _
  rw [hmap, List.zipIdx_map_fst]

/-- Where each part has the operation once at most, those of the merge come from
different invocations. -/
theorem invs_nodup (hq : ∀ (o : OpResult) inv, q { o with inv := inv } = q o)
    (honce : ∀ p ∈ parts, (p.ops.filter q).length ≤ 1) :
    (((mergeOps parts).filter q).map (·.inv)).Nodup := by
  have hinvs : ((mergeOps parts).filter q).map (·.inv) =
      parts.zipIdx.flatMap fun p => List.replicate (p.1.ops.filter q).length p.2 := by
    rw [filter_mergeOps hq, List.map_flatMap]
    refine List.flatMap_congr fun p _ => ?_
    rw [List.map_map]
    exact List.map_const'
  rw [hinvs]
  refine List.nodup_flatMap.mpr ⟨fun p hp => ?_, ?_⟩
  · have hmem : p.1 ∈ parts := List.mem_of_getElem? (List.mem_zipIdx_iff_getElem?.mp hp)
    exact List.nodup_replicate.mpr (honce p.1 hmem)
  · have hidx : (parts.zipIdx.map Prod.snd).Nodup := by
      rw [List.zipIdx_map_snd]
      exact List.nodup_range'
    refine (List.pairwise_map.mp hidx).imp fun {p p'} hne inv hinv hinv' => ?_
    exact hne ((List.eq_of_mem_replicate hinv).symm.trans (List.eq_of_mem_replicate hinv'))

end Merge

/-! ## Every iteration is executed once per copy -/

section Once

variable {post : Nat → Nat → RunBody → RunResponse × ℚ} {req : RunRequest}
  {invocations : Option Nat} {k c offset n i op : Nat} {plan : List Nat} {r : RunResponse}
  {x y : OpResult} {runs : Nat → Nat → List ExecEvent} {events : List ExecEvent}

/-- The operation `op` of the global iteration `i`. -/
def OpResult.isOf (req : RunRequest) (i op : Nat) (x : OpResult) : Bool :=
  x.i = i && x.stmt = req.stmtOf op

/-- The responses that are merged, one an invocation. -/
def partsOf (post : Nat → Nat → RunBody → RunResponse × ℚ) (req : RunRequest)
    (invocations : Option Nat) : List RunResponse :=
  (runChunks post req (copiesOf invocations) 0 0 (chunksOf req)).map Prod.fst

/-- Every invocation was answered by the executor, which took the events `runs c j` for
copy `j` of chunk `c`. -/
def Answered (post : Nat → Nat → RunBody → RunResponse × ℚ) (req : RunRequest)
    (invocations : Option Nat) (runs : Nat → Nat → List ExecEvent) : Prop :=
  ∀ c n, (chunksOf req)[c]? = some n → ∀ j < copiesOf invocations,
    handleRun (chunkBody req n ((chunksOf req).take c).sum) (runs c j) =
        some (post c j (chunkBody req n ((chunksOf req).take c).sum)).1 ∧
      (post c j (chunkBody req n ((chunksOf req).take c).sum)).1.ok = true

theorem chunkBody_offset : (chunkBody req n offset).iOffset.getD 0 = offset := by
  unfold chunkBody
  dsimp only
  split
  · rename_i hzero
    exact hzero.symm
  · rfl

theorem isOf_iff : x.isOf req i op = true ↔ x.i = i ∧ x.stmt = req.stmtOf op := by
  unfold OpResult.isOf
  simp

theorem mem_runChunks {p : RunResponse × ℚ} : p ∈ runChunks post req k c offset plan ↔
    ∃ m n j, plan[m]? = some n ∧ j < k ∧
      p = post (c + m) j (chunkBody req n (offset + (plan.take m).sum)) := by
  induction plan generalizing c offset with
  | nil => simp [runChunks]
  | cons n rest ih =>
    have hnext : ∀ m, c + 1 + m = c + (m + 1) ∧
        offset + n + (rest.take m).sum = offset + ((n :: rest).take (m + 1)).sum := by
      intro m
      rw [List.take_succ_cons, List.sum_cons]
      omega
    rw [runChunks, List.mem_append, ih]
    constructor
    · rintro (h | ⟨m, n', j, hn', hj, hp⟩)
      · obtain ⟨j, hj, rfl⟩ := List.mem_map.mp h
        exact ⟨0, n, j, rfl, List.mem_range.mp hj, rfl⟩
      · rw [(hnext m).1, (hnext m).2] at hp
        exact ⟨m + 1, n', j, hn', hj, hp⟩
    · rintro ⟨m, n', j, hn', hj, hp⟩
      cases m with
      | zero =>
        cases hn'
        exact .inl (List.mem_map.mpr ⟨j, List.mem_range.mpr hj, hp.symm⟩)
      | succ m =>
        rw [← (hnext m).1, ← (hnext m).2] at hp
        exact .inr ⟨m, n', j, hn', hj, hp⟩

/-- Every part is an executor's answer to a chunk of the request. -/
theorem partsOf_runsOnce (hanswers : Answered post req invocations runs)
    (h : r ∈ partsOf post req invocations) :
    ∃ n offset events, offset + n ≤ req.repeats ∧ RunsOnce (chunkBody req n offset) events r := by
  obtain ⟨p, hp, rfl⟩ := List.mem_map.mp h
  obtain ⟨m, n, j, hn, hj, rfl⟩ := mem_runChunks.mp hp
  obtain ⟨hhandle, hok⟩ := hanswers m n hn j hj
  rw [Nat.zero_add, Nat.zero_add]
  refine ⟨n, ((chunksOf req).take m).sum, runs m j, ?_, handleRun_runsOnce hhandle hok⟩
  have hlt := (List.getElem?_eq_some_iff.mp hn).1
  have hget : (chunksOf req)[m] = n := (List.getElem?_eq_some_iff.mp hn).2
  calc ((chunksOf req).take m).sum + n = ((chunksOf req).take (m + 1)).sum := by
        rw [List.take_succ_eq_append_getElem hlt, List.sum_append, hget, List.sum_singleton]
    _ ≤ (chunksOf req).sum := List.Sublist.sum_le_sum (List.take_sublist _ _) fun _ _ => Nat.zero_le _
    _ = req.repeats := chunksOf_sum req

/-- In one answer an operation is there once at most. -/
theorem RunsOnce.count_le {body : RunBody} (h : RunsOnce body events r) :
    (r.ops.filter (OpResult.isOf req i op)).length ≤ 1 := by
  have hsorted := h.sorted.filter (OpResult.isOf req i op)
  cases hfilter : r.ops.filter (OpResult.isOf req i op) with
  | nil => exact Nat.zero_le _
  | cons a l =>
    cases l with
    | nil => exact Nat.le_refl _
    | cons b l =>
      exfalso
      have hmem : ∀ z ∈ a :: b :: l, z.i = i ∧ z.stmt = req.stmtOf op := fun z hz =>
        isOf_iff.mp (List.mem_filter.mp (hfilter ▸ hz)).2
      obtain ⟨hai, has⟩ := hmem a List.mem_cons_self
      obtain ⟨hbi, hbs⟩ := hmem b (List.mem_cons_of_mem _ List.mem_cons_self)
      rw [hfilter] at hsorted
      have hab := (List.pairwise_cons.mp hsorted).1 b List.mem_cons_self
      rw [hai, hbi, has, hbs] at hab
      omega

/-- In one answer an operation is there once, if it is one of the chunk's. -/
theorem RunsOnce.count (h : RunsOnce (chunkBody req n offset) events r) (hopened : LaneOpens events)
    (hop : op < req.opsPerIteration) :
    (r.ops.filter (OpResult.isOf req i op)).length = if offset ≤ i ∧ i < offset + n then 1 else 0 := by
  split
  · rename_i hin
    have hthere : ∃ x ∈ r.ops, x.Of (chunkBody req n offset) (i - offset) op :=
      h.complete hopened (i - offset) op (by show i - offset < n; omega) hop
    obtain ⟨x, hx, hxi, hxs⟩ := hthere
    rw [chunkBody_offset] at hxi
    have hmem : x ∈ r.ops.filter (OpResult.isOf req i op) :=
      List.mem_filter.mpr ⟨hx, isOf_iff.mpr ⟨by omega, hxs⟩⟩
    exact Nat.le_antisymm h.count_le (List.length_pos_of_mem hmem)
  · rename_i hout
    refine List.length_eq_zero_iff.mpr (List.filter_eq_nil_iff.mpr fun x hx hxof => hout ?_)
    obtain ⟨i', op', hi', -, hxi, -⟩ := h.sound x hx
    rw [chunkBody_offset, (isOf_iff.mp hxof).1] at hxi
    change i' < n at hi'
    omega

/-- Over the chunks an operation is there once per copy. -/
theorem count_runChunks (hop : op < req.opsPerIteration)
    (hparts : ∀ m n, plan[m]? = some n → ∀ j < k,
      RunsOnce (chunkBody req n (offset + (plan.take m).sum)) (runs (c + m) j)
          (post (c + m) j (chunkBody req n (offset + (plan.take m).sum))).1 ∧
        LaneOpens (runs (c + m) j)) :
    (((runChunks post req k c offset plan).map Prod.fst).map fun p =>
      (p.ops.filter (OpResult.isOf req i op)).length).sum =
        if offset ≤ i ∧ i < offset + plan.sum then k else 0 := by
  induction plan generalizing c offset with
  | nil =>
    rw [runChunks, if_neg (by rw [List.sum_nil]; omega)]
    rfl
  | cons n rest ih =>
    have hfirst : ((List.range k).map fun j =>
        ((post c j (chunkBody req n offset)).1.ops.filter (OpResult.isOf req i op)).length) =
          List.replicate k (if offset ≤ i ∧ i < offset + n then 1 else 0) := by
      refine List.eq_replicate_iff.mpr ⟨by simp, fun m hm => ?_⟩
      obtain ⟨j, hj, rfl⟩ := List.mem_map.mp hm
      obtain ⟨honce, hopened⟩ := hparts 0 n rfl j (List.mem_range.mp hj)
      exact honce.count hopened hop
    have hrest := @ih (c + 1) (offset + n) fun m n' hn' j hj => by
      have hnext := hparts (m + 1) n' hn' j hj
      rw [List.take_succ_cons, List.sum_cons, ← Nat.add_assoc offset] at hnext
      rw [Nat.add_assoc c 1 m, Nat.add_comm 1 m]
      exact hnext
    have hsum : ((((List.range k).map fun j => post c j (chunkBody req n offset)).map Prod.fst).map
        fun p => (p.ops.filter (OpResult.isOf req i op)).length).sum =
        if offset ≤ i ∧ i < offset + n then k else 0 := by
      rw [List.map_map, List.map_map]
      refine (congrArg List.sum hfirst).trans ?_
      rw [List.sum_replicate]
      split <;> simp
    rw [runChunks, List.map_append, List.map_append, List.sum_append, hsum, hrest, List.sum_cons]
    split <;> split <;> split <;> omega

/-- What is promised of a request that is split, sent in copies and merged. -/
structure MergesOnce (req : RunRequest) (invocations : Option Nat)
    (runs : Nat → Nat → List ExecEvent) (result : RunResult) : Prop where
  /-- When a lane opens in each invocation, every operation of every iteration is there once a
  copy, each from another invocation. -/
  once : (∀ c < (chunksOf req).length, ∀ j < copiesOf invocations, LaneOpens (runs c j)) →
    ∀ i op, i < req.repeats → op < req.opsPerIteration →
      (result.ops.filter (OpResult.isOf req i op)).length = copiesOf invocations ∧
        ((result.ops.filter (OpResult.isOf req i op)).map (·.inv)).Nodup
  /-- Nothing else is there. -/
  sound : ∀ x ∈ result.ops, ∃ i op, i < req.repeats ∧ op < req.opsPerIteration ∧
    x.i = i ∧ x.stmt = req.stmtOf op
  /-- Inside an invocation one lane runs an iteration. -/
  oneLane : ∀ x ∈ result.ops, ∀ y ∈ result.ops, x.inv = y.inv → x.i = y.i → x.lane = y.lane
  /-- They come by invocation, and inside one by iteration and statement. -/
  sorted : result.ops.Pairwise fun a b =>
    a.inv < b.inv ∨ a.inv = b.inv ∧ (a.i < b.i ∨ a.i = b.i ∧ a.stmt < b.stmt)
  /-- An invocation in which no lane opens contributes nothing. -/
  none : ∀ c < (chunksOf req).length, ∀ j < copiesOf invocations, ¬ LaneOpens (runs c j) →
    ∀ x ∈ result.ops, x.inv ≠ c * copiesOf invocations + j

theorem mergeRuns_ok {parts : List RunResponse} {httpMs : List ℚ} (h : parts ≠ []) :
    ∃ result, mergeRuns parts httpMs = .ok result ∧ result.ops = mergeOps parts :=
  ⟨_, if_neg h, rfl⟩

theorem mergeOps_sorted {parts : List RunResponse} (h : ∀ r ∈ parts,
    r.ops.Pairwise fun a b => a.i < b.i ∨ a.i = b.i ∧ a.stmt < b.stmt) :
    (mergeOps parts).Pairwise fun a b =>
      a.inv < b.inv ∨ a.inv = b.inv ∧ (a.i < b.i ∨ a.i = b.i ∧ a.stmt < b.stmt) := by
  unfold mergeOps
  refine List.pairwise_flatMap.mpr ⟨fun p hp => ?_, ?_⟩
  · have hmem : p.1 ∈ parts := List.mem_of_getElem? (List.mem_zipIdx_iff_getElem?.mp hp)
    exact List.pairwise_map.mpr ((h p.1 hmem).imp fun hlex => .inr ⟨rfl, hlex⟩)
  · have hidx : (parts.zipIdx.map Prod.snd).Pairwise (· < ·) := by
      rw [List.zipIdx_map_snd]
      exact List.pairwise_lt_range'
    refine (List.pairwise_map.mp hidx).imp fun {p p'} hlt x hx y hy => ?_
    obtain ⟨o, -, rfl⟩ := List.mem_map.mp hx
    obtain ⟨o', -, rfl⟩ := List.mem_map.mp hy
    exact .inl hlt

theorem partsOf_ne_nil (hrepeats : 1 ≤ req.repeats) : partsOf post req invocations ≠ [] := by
  have hcopies : copiesOf invocations ≠ 0 := by
    unfold copiesOf
    omega
  unfold partsOf
  cases hplan : chunksOf req with
  | nil =>
    have hsum := chunksOf_sum req
    rw [hplan, List.sum_nil] at hsum
    omega
  | cons n rest =>
    rw [runChunks]
    simp [hcopies]

/-- The copies of a chunk are numbered one after the other. -/
theorem getElem?_runChunks {m j : Nat} (hj : j < k) (hn : plan[m]? = some n) :
    (runChunks post req k c offset plan)[m * k + j]? =
      some (post (c + m) j (chunkBody req n (offset + (plan.take m).sum))) := by
  induction plan generalizing c offset m with
  | nil => cases hn
  | cons n' rest ih =>
    have hlen : ((List.range k).map fun j => post c j (chunkBody req n' offset)).length = k := by
      rw [List.length_map, List.length_range]
    rw [runChunks]
    cases m with
    | zero =>
      cases hn
      rw [Nat.zero_mul, Nat.zero_add, List.getElem?_append_left (hj.trans_eq hlen.symm), List.getElem?_map,
        List.getElem?_range hj]
      rfl
    | succ m =>
      have hback : (m + 1) * k + j - k = m * k + j := by
        rw [Nat.succ_mul]
        omega
      rw [List.getElem?_append_right (by rw [hlen, Nat.succ_mul]; omega), hlen, hback, ih hn,
        List.take_succ_cons, List.sum_cons, Nat.add_assoc c 1 m, Nat.add_comm 1 m,
        Nat.add_assoc offset]

/-- For every request, however it is split, and every schedule of the lanes. -/
theorem runOnWorker_once (post : Nat → Nat → RunBody → RunResponse × ℚ) (req : RunRequest)
    (invocations : Option Nat) (runs : Nat → Nat → List ExecEvent) (hrepeats : 1 ≤ req.repeats)
    (hanswers : Answered post req invocations runs) :
    ∃ result, runOnWorker post req invocations = .ok result ∧
      MergesOnce req invocations runs result := by
  obtain ⟨result, hresult, hops⟩ :
      ∃ result, runOnWorker post req invocations = .ok result ∧
        result.ops = mergeOps (partsOf post req invocations) :=
    mergeRuns_ok (partsOf_ne_nil hrepeats)
  refine ⟨result, hresult, ?_⟩
  have hq : ∀ i op (o : OpResult) inv,
      OpResult.isOf req i op { o with inv := inv } = OpResult.isOf req i op o := fun _ _ _ _ => rfl
  constructor
  case once =>
    intro hopened i op hi hop
    rw [hops]
    refine ⟨?_, invs_nodup (hq i op) fun r hr => ?_⟩
    · have hparts : ∀ m n, (chunksOf req)[m]? = some n → ∀ j < copiesOf invocations,
          RunsOnce (chunkBody req n (0 + ((chunksOf req).take m).sum)) (runs (0 + m) j)
              (post (0 + m) j (chunkBody req n (0 + ((chunksOf req).take m).sum))).1 ∧
            LaneOpens (runs (0 + m) j) := by
        intro m n hn j hj
        obtain ⟨hhandle, hok⟩ := hanswers m n hn j hj
        rw [Nat.zero_add, Nat.zero_add]
        exact ⟨handleRun_runsOnce hhandle hok, hopened m (List.getElem?_eq_some_iff.mp hn).1 j hj⟩
      rw [length_filter_mergeOps (hq i op)]
      refine (count_runChunks hop hparts).trans (if_pos ⟨Nat.zero_le i, ?_⟩)
      rw [chunksOf_sum, Nat.zero_add]
      exact hi
    · obtain ⟨n, offset, events, -, honce⟩ := partsOf_runsOnce hanswers hr
      exact honce.count_le
  case sound =>
    intro x hx
    rw [hops] at hx
    obtain ⟨r, hr, o, ho, heq⟩ := mem_mergeOps.mp hx
    obtain ⟨n, offset, events, hle, honce⟩ := partsOf_runsOnce hanswers (List.mem_of_getElem? hr)
    obtain ⟨i, op, hi, hop, hof⟩ := honce.sound o ho
    rw [heq]
    refine ⟨i + offset, op, ?_, hop, ?_, hof.2⟩
    · change i < n at hi
      omega
    · exact hof.1.trans (congrArg (i + ·) chunkBody_offset)
  case oneLane =>
    intro x hx y hy hinv hxy
    rw [hops] at hx hy
    obtain ⟨r, hr, o, ho, heq⟩ := mem_mergeOps.mp hx
    obtain ⟨r', hr', o', ho', heq'⟩ := mem_mergeOps.mp hy
    obtain ⟨n, offset, events, -, honce⟩ := partsOf_runsOnce hanswers (List.mem_of_getElem? hr)
    rw [hinv, hr'] at hr
    cases hr
    rw [heq, heq'] at hxy ⊢
    exact honce.oneLane o ho o' ho' hxy
  case sorted =>
    rw [hops]
    refine mergeOps_sorted fun r hr => ?_
    obtain ⟨n, offset, events, -, honce⟩ := partsOf_runsOnce hanswers hr
    exact honce.sorted
  case none =>
    intro c hc j hj hnone x hx heq
    have hn : (chunksOf req)[c]? = some (chunksOf req)[c] := List.getElem?_eq_getElem hc
    have hpart : (runChunks post req (copiesOf invocations) 0 0 (chunksOf req))[
        c * copiesOf invocations + j]? =
          some (post (0 + c) j (chunkBody req _ (0 + ((chunksOf req).take c).sum))) :=
      getElem?_runChunks hj hn
    obtain ⟨hhandle, hok⟩ := hanswers c _ hn j hj
    rw [hops] at hx
    obtain ⟨r, hr, o, ho, -⟩ := mem_mergeOps.mp hx
    rw [heq, partsOf, List.getElem?_map, hpart, Nat.zero_add, Nat.zero_add] at hr
    cases hr
    rw [(handleRun_runsOnce hhandle hok).none hnone] at ho
    cases ho

end Once

/-! ## Two iterations by two lanes -/

/-- One statement, twice, by two lanes. -/
def twoLanes : RunRequest where
  backend := "d1"
  statements := [{ sql := some "select 1" }]
  iterations := some 2
  concurrency := some 2

/-- The second lane runs both iterations, and the first statement fails. -/
def twoLanesEvents : List ExecEvent :=
  [.opened 1 1, .settled 1 1 2 (.error "busy"), .refused 0 3 "refused", .settled 1 3 4 (.ok []),
    .closed 1, .returns "SYD" 5]

def twoLanesPost (_c _j : Nat) (body : RunBody) : RunResponse × ℚ :=
  ((handleRun body twoLanesEvents).getD { ok := false }, 6)

theorem twoLanes_answered :
    Answered twoLanesPost twoLanes (some 2) fun _ _ => twoLanesEvents := by
  intro c n hn j _
  have hplan : chunksOf twoLanes = [2] := by decide
  rw [hplan] at hn ⊢
  have hanswer : ∃ r, handleRun (chunkBody twoLanes 2 0) twoLanesEvents = some r ∧ r.ok = true :=
    ⟨_, rfl, rfl⟩
  obtain ⟨r, hr, hok⟩ := hanswer
  cases c with
  | zero =>
    cases hn
    refine ⟨hr.trans ?_, ?_⟩
    · exact congrArg some (congrArg (fun o => o.getD { ok := false }) hr).symm
    · exact (congrArg (fun o => (o.getD { ok := false }).ok) hr).trans hok
  | succ c => cases hn

theorem runOnWorker_once_twoLanes : ∃ result,
    runOnWorker twoLanesPost twoLanes (some 2) = .ok result ∧
      MergesOnce twoLanes (some 2) (fun _ _ => twoLanesEvents) result ∧
      (result.ops.map fun x => (x.inv, x.lane, x.i, x.stmt, x.ok)) =
        [(0, 1, 0, 0, false), (0, 1, 1, 0, true), (1, 1, 0, 0, false), (1, 1, 1, 0, true)] ∧
      ∀ i < 2, (result.ops.filter (OpResult.isOf twoLanes i 0)).length = 2 ∧
        ((result.ops.filter (OpResult.isOf twoLanes i 0)).map (·.inv)).Nodup := by
  obtain ⟨result, hresult, honce⟩ := runOnWorker_once twoLanesPost twoLanes (some 2)
    (fun _ _ => twoLanesEvents) (by decide) twoLanes_answered
  refine ⟨result, hresult, honce, ?_, fun i hi => ?_⟩
  · cases hresult
    rfl
  · exact honce.once (fun _ _ _ _ => ⟨1, 1, List.mem_cons_self⟩) i 0 hi Nat.one_pos

end SupabaseLab.SqliteEdge
