/-
  ComputeDisk/DiskDelta.lean --- the device that wrote the most between two snapshots.

  Source: `NodeSnap` and `diskDelta` of experiments/compute-disk/lib/disk-change.ts.

  The loop keeps of the best device what it reports of it, megabytes to one decimal,
  and holds the exact megabytes of the next one against that.  Two devices that are
  within the rounding of each other are told apart by their places in the list.
  Counters and the quotients made of them are exact rationals, where the code has
  doubles; the rounding to a decimal is that of the code.
-/
import Mathlib.Data.Finset.Max
import Mathlib.Data.List.Nodup
import SupabaseLab.Library.Champion
import SupabaseLab.Library.JsRound
import SupabaseLab.Library.Json

set_option autoImplicit false

namespace SupabaseLab.ComputeDisk

open Library

/-! ## Snapshots -/

structure DiskCounters where
  writtenBytes : ℚ
  writes : ℚ
  readBytes : ℚ
  reads : ℚ
  deriving DecidableEq

/-- `NodeSnap`, its disks as `Object.entries` lists them. -/
structure NodeSnap where
  timeS : ℚ
  disks : List (String × DiskCounters)
  cpuBusyS : ℚ
  cpuIdleS : ℚ
  distinct : (disks.map Prod.fst).Nodup := by decide
  /-- `disks[dev] ??= …` of the parser finds an inherited property, and enters nothing. -/
  entered : ∀ entry ∈ disks, entry.1 ∉ objectPrototype := by decide

structure DiskDelta where
  device : String
  seconds : ℚ
  writtenMB : ℚ
  writes : ℚ
  writeMBps : ℚ
  writeIops : ℚ
  cpuBusyFrac : ℚ
  deriving DecidableEq

/-! ## The delta -/

/-- What is reported of a device with the counters `d0` before and `d1` after. -/
def deltaOf (a b : NodeSnap) (dev : String) (d0 d1 : DiskCounters) : DiskDelta :=
  let seconds := b.timeS - a.timeS
  let wb := d1.writtenBytes - d0.writtenBytes
  let busy := b.cpuBusyS - a.cpuBusyS
  let idle := b.cpuIdleS - a.cpuIdleS
  { device := dev
    seconds := mathRound (seconds * 1000) / 1000
    writtenMB := mathRound (wb / 100000) / 10
    writes := d1.writes - d0.writes
    writeMBps := mathRound (wb / 100000 / seconds) / 10
    writeIops := mathRound ((d1.writes - d0.writes) / seconds)
    cpuBusyFrac := if 0 < busy + idle then mathRound (busy / (busy + idle) * 1000) / 1000 else -1 }

/-- One round of the loop over `Object.entries(b.disks)`. -/
def diskStep (a b : NodeSnap) (best : Option DiskDelta) (entry : String × DiskCounters) :
    Option DiskDelta :=
  match a.disks.lookup entry.1 with
  | none => best
  | some d0 =>
    let wb := entry.2.writtenBytes - d0.writtenBytes
    match best with
    | none => some (deltaOf a b entry.1 d0 entry.2)
    | some r =>
      if r.writtenMB < wb / 1000000 then some (deltaOf a b entry.1 d0 entry.2) else some r

def diskDelta (a b : NodeSnap) : Option DiskDelta :=
  if 0 < b.timeS - a.timeS then b.disks.foldl (diskStep a b) none else none

/-! ## The busiest device -/

/-- A device of both snapshots. -/
structure CommonDevice where
  device : String
  before : DiskCounters
  after : DiskCounters
  deriving DecidableEq

def commonOf (a : NodeSnap) (entry : String × DiskCounters) : Option CommonDevice :=
  (a.disks.lookup entry.1).map fun d0 => ⟨entry.1, d0, entry.2⟩

/-- The devices of both, in the order of the later snapshot. -/
def commonDevices (a b : NodeSnap) : List CommonDevice := b.disks.filterMap (commonOf a)

def CommonDevice.delta (a b : NodeSnap) (c : CommonDevice) : DiskDelta :=
  deltaOf a b c.device c.before c.after

/-- The increase of the written bytes. -/
def CommonDevice.written (c : CommonDevice) : ℚ := c.after.writtenBytes - c.before.writtenBytes

/-- The increase in megabytes, exact and as it is reported. -/
def CommonDevice.exactMB (c : CommonDevice) : ℚ := c.written / 1000000

def CommonDevice.shownMB (c : CommonDevice) : ℚ := mathRound (c.written / 100000) / 10

/-- No device of both wrote more. -/
def Busiest (a b : NodeSnap) (c : CommonDevice) : Prop :=
  c ∈ commonDevices a b ∧ ∀ d ∈ commonDevices a b, d.written ≤ c.written

/-- The figures of a busiest device are what is reported. -/
def ReportsBusiest (a b : NodeSnap) : Prop :=
  ∃ c, Busiest a b c ∧ diskDelta a b = some (c.delta a b)

/-- A device with a smaller increase stands ahead of all the busiest ones and is shown as no
less than they wrote, or it stands behind them all and wrote more than they are shown with. -/
def Overtaken (a b : NodeSnap) : Prop :=
  ∃ pre c post, commonDevices a b = pre ++ c :: post ∧ ∃ top, Busiest a b top ∧
    c.written < top.written ∧
      ((∀ d ∈ pre, d.written < top.written) ∧ top.exactMB ≤ c.shownMB ∨
        (∀ d ∈ post, d.written < top.written) ∧ top.shownMB < c.exactMB)

/-- Two devices that the rounding confuses in one order or the other. -/
def Confusable (c top : CommonDevice) : Prop :=
  c.written < top.written ∧ (top.exactMB ≤ c.shownMB ∨ top.shownMB < c.exactMB)

/-- The snapshot with its devices in another order. -/
def NodeSnap.listed (b : NodeSnap) {disks : List (String × DiskCounters)} (h : disks.Perm b.disks) :
    NodeSnap :=
  { b with
    disks := disks
    distinct := (h.map Prod.fst).nodup_iff.mpr b.distinct
    entered := fun entry hentry => b.entered entry (h.mem_iff.mp hentry) }

/-- A busiest device is reported in whatever order the devices are listed. -/
def ReportsBusiestAnyhow (a b : NodeSnap) : Prop :=
  ∀ (disks : List (String × DiskCounters)) (h : disks.Perm b.disks), ReportsBusiest a (b.listed h)

section Lemmas

variable {a b : NodeSnap} {c d top : CommonDevice} {disks : List (String × DiskCounters)}

theorem written_le_iff : c.written ≤ d.written ↔ c.exactMB ≤ d.exactMB :=
  (div_le_div_iff_of_pos_right (by norm_num)).symm

theorem written_lt_iff : c.written < d.written ↔ c.exactMB < d.exactMB :=
  (div_lt_div_iff_of_pos_right (by norm_num)).symm

/-- The megabytes shown are the exact ones, rounded to the nearest tenth. -/
theorem isRounding_shownMB : IsRounding CommonDevice.exactMB CommonDevice.shownMB where
  mono c d h := by
    have hle := written_le_iff.mpr h
    have hround := mathRound_mono (div_le_div_of_nonneg_right hle (by norm_num : (0 : ℚ) ≤ 100000))
    exact div_le_div_of_nonneg_right (by exact_mod_cast hround) (by norm_num)
  grid c d h := by
    have htenths : c.written / 100000 ≤ mathRound (d.written / 100000) := by
      have h : c.written / 1000000 ≤ mathRound (d.written / 100000) / 10 := h
      linarith
    have hround := mathRound_le_of_le htenths
    exact div_le_div_of_nonneg_right (by exact_mod_cast hround) (by norm_num)

/-- The loop keeps the champion, reported. -/
theorem foldl_diskStep (best : Option CommonDevice) :
    disks.foldl (diskStep a b) (best.map (CommonDevice.delta a b)) =
      ((disks.filterMap (commonOf a)).foldl (challenge CommonDevice.exactMB CommonDevice.shownMB)
        best).map (CommonDevice.delta a b) := by
  induction disks generalizing best with
  | nil => rfl
  | cons entry disks ih =>
    rw [List.foldl_cons]
    cases hfind : a.disks.lookup entry.1 with
    | none =>
      rw [List.filterMap_cons_none (by rw [commonOf, hfind]; rfl), ← ih]
      simp only [diskStep, hfind]
    | some d0 =>
      rw [List.filterMap_cons_some (b := ⟨entry.1, d0, entry.2⟩) (by rw [commonOf, hfind]; rfl),
        List.foldl_cons, ← ih]
      congr 1
      cases best with
      | none => simp only [diskStep, hfind, Option.map_none, challenge, Option.map_some]; rfl
      | some r =>
        simp only [diskStep, hfind, Option.map_some, challenge]
        have hcompare : (r.delta a b).writtenMB < (entry.2.writtenBytes - d0.writtenBytes) / 1000000 ↔
            r.shownMB < (⟨entry.1, d0, entry.2⟩ : CommonDevice).exactMB := Iff.rfl
        simp only [hcompare]
        split <;> rfl

theorem diskDelta_eq (hlater : a.timeS < b.timeS) : diskDelta a b =
    (champion CommonDevice.exactMB CommonDevice.shownMB (commonDevices a b)).map
      (CommonDevice.delta a b) := by
  rw [diskDelta, if_pos (sub_pos.mpr hlater)]
  exact foldl_diskStep none

theorem busiest_iff : Busiest a b c ↔ GreatestIn CommonDevice.exactMB (commonDevices a b) c :=
  and_congr_right fun _ => forall₂_congr fun _ _ => written_le_iff

theorem exists_busiest (hcommon : commonDevices a b ≠ []) : ∃ c, Busiest a b c := by
  obtain ⟨c, hc, hmax⟩ := Multiset.exists_max_image CommonDevice.written
    (s := (commonDevices a b : Multiset CommonDevice)) (by simpa using hcommon)
  exact ⟨c, hc, hmax⟩

theorem map_device_commonDevices : ((commonDevices a b).map CommonDevice.device).Sublist
    (b.disks.map Prod.fst) := by
  rw [commonDevices]
  induction b.disks with
  | nil => exact List.Sublist.refl _
  | cons entry disks ih =>
    rw [List.map_cons, List.filterMap_cons, commonOf]
    cases a.disks.lookup entry.1 with
    | none => exact ih.cons _
    | some d0 => exact ih.cons_cons _

/-- Two devices with one name are one. -/
theorem commonDevice_ext (hc : c ∈ commonDevices a b) (hd : d ∈ commonDevices a b)
    (h : c.device = d.device) : c = d :=
  List.inj_on_of_nodup_map (map_device_commonDevices.nodup b.distinct) hc hd h

/-- What is reported is a busiest device exactly when the champion is one. -/
theorem reportsBusiest_iff_champion (hlater : a.timeS < b.timeS)
    (hc : champion CommonDevice.exactMB CommonDevice.shownMB (commonDevices a b) = some c)
    (hmem : c ∈ commonDevices a b) : ReportsBusiest a b ↔ Busiest a b c := by
  have heq : diskDelta a b = some (c.delta a b) := by rw [diskDelta_eq hlater, hc]; rfl
  constructor
  · rintro ⟨d, hd, hreported⟩
    rw [heq, Option.some_inj] at hreported
    have hsame := commonDevice_ext hmem hd.1 (congrArg DiskDelta.device hreported)
    exact hsame ▸ hd
  · exact fun h => ⟨c, h, heq⟩

theorem overtaken_iff (htop : Busiest a b top) : Overtaken a b ↔
    Misleads CommonDevice.exactMB CommonDevice.shownMB (commonDevices a b) top := by
  have hsame : ∀ {other}, Busiest a b other → other.written = top.written := fun hother =>
    le_antisymm (htop.2 _ hother.1) (hother.2 _ htop.1)
  simp only [Misleads, ← written_lt_iff]
  constructor
  · rintro ⟨pre, c, post, heq, other, hother, hlt, hplace⟩
    have hwritten := hsame hother
    refine ⟨pre, c, post, heq, hwritten ▸ hlt, ?_⟩
    simp only [CommonDevice.exactMB, CommonDevice.shownMB, hwritten] at hplace ⊢
    exact hplace
  · rintro ⟨pre, c, post, heq, hlt, hplace⟩
    exact ⟨pre, c, post, heq, top, htop, hlt, hplace⟩

theorem reportsBusiest_iff_not_overtaken (hlater : a.timeS < b.timeS)
    (hcommon : commonDevices a b ≠ []) : ReportsBusiest a b ↔ ¬ Overtaken a b := by
  obtain ⟨top, htop⟩ := exists_busiest hcommon
  rcases champion_cases CommonDevice.exactMB CommonDevice.shownMB
    (commonDevices a b) with ⟨-, hnil⟩ | ⟨c, hmem, hc⟩
  · exact absurd hnil hcommon
  · rw [reportsBusiest_iff_champion hlater hc hmem, overtaken_iff htop,
      ← champion_greatest_iff isRounding_shownMB (busiest_iff.mp htop) hc]
    constructor
    · intro h
      exact le_antisymm (written_le_iff.mp (htop.2 c hmem)) (written_le_iff.mp (h.2 top htop.1))
    · intro h
      exact ⟨hmem, fun d hd => (htop.2 d hd).trans (written_le_iff.mpr h.ge)⟩

/-! ## Other orders -/

theorem commonDevices_perm {disks : List (String × DiskCounters)} (h : disks.Perm b.disks) :
    (commonDevices a (b.listed h)).Perm (commonDevices a b) :=
  h.filterMap _

theorem busiest_listed {disks : List (String × DiskCounters)} (h : disks.Perm b.disks) :
    Busiest a (b.listed h) c ↔ Busiest a b c := by
  have hmem : ∀ d, d ∈ commonDevices a (b.listed h) ↔ d ∈ commonDevices a b := fun d =>
    (commonDevices_perm h).mem_iff
  simp only [Busiest, hmem]

/-- A device of both can be listed ahead of all others, or behind them. -/
theorem exists_listed (hc : c ∈ commonDevices a b) :
    (∃ (disks : List (String × DiskCounters)) (h : disks.Perm b.disks) (rest : List CommonDevice),
      commonDevices a (b.listed h) = c :: rest) ∧
    ∃ (disks : List (String × DiskCounters)) (h : disks.Perm b.disks) (rest : List CommonDevice),
      commonDevices a (b.listed h) = rest ++ [c] := by
  obtain ⟨entry, hentry, hfound⟩ := List.mem_filterMap.mp hc
  obtain ⟨pre, post, heq⟩ := List.append_of_mem hentry
  have hahead : (entry :: (pre ++ post)).Perm b.disks := heq ▸ List.perm_middle.symm
  have hswap : ((pre ++ post) ++ [entry]).Perm (entry :: (pre ++ post)) := List.perm_append_comm
  have hbehind : ((pre ++ post) ++ [entry]).Perm b.disks := hswap.trans hahead
  have happend : ((pre ++ post) ++ [entry]).filterMap (commonOf a) =
      (pre ++ post).filterMap (commonOf a) ++ [entry].filterMap (commonOf a) :=
    List.filterMap_append
  refine ⟨⟨_, hahead, (pre ++ post).filterMap (commonOf a), List.filterMap_cons_some hfound⟩,
    ⟨_, hbehind, (pre ++ post).filterMap (commonOf a), ?_⟩⟩
  exact happend.trans (congrArg _ (List.filterMap_cons_some hfound))

theorem reportsBusiest_listed_iff (hlater : a.timeS < b.timeS) (hcommon : commonDevices a b ≠ []) :
    ReportsBusiestAnyhow a b ↔
      ∀ c ∈ commonDevices a b, ∀ top, Busiest a b top → ¬ Confusable c top := by
  have hiff : ∀ (disks : List (String × DiskCounters)) (h : disks.Perm b.disks),
      ReportsBusiest a (b.listed h) ↔ ¬ Overtaken a (b.listed h) := fun disks h =>
    reportsBusiest_iff_not_overtaken hlater fun hnil =>
      hcommon (List.nil_perm.mp (hnil ▸ commonDevices_perm h))
  constructor
  · rintro hall c hc top htop ⟨hlt, hclose⟩
    obtain ⟨⟨disks, h, rest, hahead⟩, ⟨disks', h', rest', hbehind⟩⟩ := exists_listed hc
    rcases hclose with hround | hround
    · refine (hiff disks h).mp (hall disks h) ⟨[], c, rest, hahead, top, ?_, hlt, .inl ⟨?_, hround⟩⟩
      · exact (busiest_listed h).mpr htop
      · exact fun d hd => absurd hd List.not_mem_nil
    · refine (hiff disks' h').mp (hall disks' h')
        ⟨rest', c, [], hbehind, top, ?_, hlt, .inr ⟨?_, hround⟩⟩
      · exact (busiest_listed h').mpr htop
      · exact fun d hd => absurd hd List.not_mem_nil
  · intro hnone disks h
    refine (hiff disks h).mpr ?_
    rintro ⟨pre, c, post, heq, top, htop, hlt, hplace⟩
    have hc : c ∈ commonDevices a (b.listed h) := heq ▸ List.mem_append_right pre List.mem_cons_self
    exact hnone c ((commonDevices_perm h).mem_iff.mp hc) top ((busiest_listed h).mp htop)
      ⟨hlt, hplace.imp And.right And.right⟩

/-- **The busiest device is reported unless another one overtakes it by its place and the
rounding**; it is reported in every order of the devices when none is that close. -/
theorem diskDelta_busiest_iff (hlater : a.timeS < b.timeS) (hcommon : commonDevices a b ≠ []) :
    (ReportsBusiest a b ↔ ¬ Overtaken a b) ∧
      (ReportsBusiestAnyhow a b ↔
        ∀ c ∈ commonDevices a b, ∀ top, Busiest a b top → ¬ Confusable c top) :=
  ⟨reportsBusiest_iff_not_overtaken hlater hcommon, reportsBusiest_listed_iff hlater hcommon⟩

end Lemmas

/-! ## Two disks -/

/-- Before a load, and forty seconds later. -/
def twoDisksBefore : NodeSnap where
  timeS := 1000
  disks := [("nvme0n1", ⟨1000000, 0, 0, 0⟩), ("nvme1n1", ⟨0, 5000, 0, 0⟩)]
  cpuBusyS := 50
  cpuIdleS := 100

def twoDisksAfter : NodeSnap where
  timeS := 1040
  disks := [("nvme0n1", ⟨2000000, 0, 0, 0⟩), ("nvme1n1", ⟨4000000000, 25000, 0, 0⟩)]
  cpuBusyS := 80
  cpuIdleS := 110

theorem diskDelta_busiest_iff_twoDisks :
    diskDelta twoDisksBefore twoDisksAfter = some ⟨"nvme1n1", 40, 4000, 20000, 100, 500, 3 / 4⟩ ∧
      (ReportsBusiest twoDisksBefore twoDisksAfter ↔ ¬ Overtaken twoDisksBefore twoDisksAfter) :=
  ⟨by with_unfolding_all decide, (diskDelta_busiest_iff (by decide) (by decide)).1⟩

/-- 1.04 MB written to the first disk and 1.01 MB to the second. -/
def closeAfter : NodeSnap where
  timeS := 1040
  disks := [("nvme0n1", ⟨2040000, 0, 0, 0⟩), ("nvme1n1", ⟨1010000, 5000, 0, 0⟩)]
  cpuBusyS := 80
  cpuIdleS := 110

/-- The first disk is kept as 1.0 MB, and the second one takes its place. -/
theorem second_disk_overtakes : commonDevices twoDisksBefore closeAfter ≠ [] ∧
    diskDelta twoDisksBefore closeAfter = some ⟨"nvme1n1", 40, 1, 0, 0, 0, 3 / 4⟩ ∧
    ¬ ReportsBusiest twoDisksBefore closeAfter := by
  refine ⟨by decide, by with_unfolding_all decide, fun h => ?_⟩
  refine (reportsBusiest_iff_not_overtaken (by decide) (by decide)).mp h ?_
  refine ⟨[⟨"nvme0n1", ⟨1000000, 0, 0, 0⟩, ⟨2040000, 0, 0, 0⟩⟩],
    ⟨"nvme1n1", ⟨0, 5000, 0, 0⟩, ⟨1010000, 5000, 0, 0⟩⟩, [], by decide,
    ⟨"nvme0n1", ⟨1000000, 0, 0, 0⟩, ⟨2040000, 0, 0, 0⟩⟩, ⟨by decide, by with_unfolding_all decide⟩,
    by with_unfolding_all decide, .inr ⟨by decide, by with_unfolding_all decide⟩⟩

end SupabaseLab.ComputeDisk
