import TiOpenCL.HeapManager.Confluence
import TiOpenCL.Library.Machine

/-!
# Collecting the blocks of other processes

Several processes share one heap manager.  `garbage_collect` and `free_all_pid` take the lock to
collect addresses in `need_free`, drop it, and free the addresses one by one, so other processes may
run between the scan and each of the frees.  The machine below has one action for each critical
section; a collector is a call that has scanned the heap and has addresses left to free.

`processes` and `owner` say what the heap manager cannot know: which of the processes that ever had
a pid made the block at an address.  A block that is released is legitimate if `garbage_collect`
finds its process dead, or if `free_all_pid` was called for its pid.  That holds in every run in
which no request is given an address that a collector still has in its set, and every collector may
signal the processes whose blocks it looks at.
-/

namespace TiOpenCL

namespace HeapManager

variable {w : ℕ}

/-! ### The machine -/

/-- A process, from its start on.  A pid is given to a new process only after the death of the
process that had it. -/
structure Process where
  /-- What `getpid` returns in it. -/
  pid : ℕ
  /-- The user it runs as. -/
  uid : ℕ
  /-- Whether it is still running. -/
  alive : Bool
  deriving DecidableEq

/-- `kill(pid, 0)` reaches a process of the same user, and every process if the caller is root. -/
def Process.maySignal (caller target : Process) : Bool :=
  caller.uid == 0 || caller.uid == target.uid

/-- `process_exists`, as the caller sees it: `kill(pid, 0)` succeeds if there is a running process
with the pid that the caller may signal. -/
def processExists (processes : List Process) (caller : Process) (pid : ℕ) : Bool :=
  processes.any fun p => p.alive && p.pid == pid && caller.maySignal p

/-- The calls that collect addresses first and free them afterwards. -/
inductive Sweep where
  | garbageCollect
  | freeAllPid (pid : ℕ)
  deriving DecidableEq

/-- A call of `garbage_collect` or `free_all_pid` after its scan. -/
structure Collector where
  /-- The process that made the call. -/
  caller : ℕ
  /-- The call. -/
  sweep : Sweep
  /-- The addresses of `need_free` that it has not freed yet. -/
  needFree : List ℕ
  deriving DecidableEq

/-- A block that a collector has released. -/
structure Release where
  /-- The call that released it. -/
  sweep : Sweep
  /-- Whether the process that allocated it was running. -/
  ownerAlive : Bool
  /-- The pid in its entry of the allocation list. -/
  pid : ℕ
  deriving DecidableEq

/-- A heap and the processes that share it. -/
structure Shared (w : ℕ) where
  /-- The heap manager. -/
  heap : HeapManager w
  /-- Every process that was started. -/
  processes : List Process
  /-- The process whose request was last given an address. -/
  owner : ℕ → ℕ
  /-- The collectors, in the order of their scans. -/
  collectors : List Collector
  /-- The blocks that collectors have released. -/
  releases : List Release

namespace Shared

/-- The addresses that the scan of a call collects. -/
def scan (s : Shared w) (caller : Process) : Sweep → List ℕ
  | .garbageCollect =>
    (s.heap.allocList.entries.filter fun e => !processExists s.processes caller e.2.pid).map Prod.fst
  | .freeAllPid pid => s.heap.needFree pid

/-- The critical sections, and the start and the end of processes. -/
inductive Action where
  | spawn (pid uid : ℕ)
  | exit (p : ℕ)
  | malloc (p size : ℕ) (allowFail : Bool)
  | free (p addr : ℕ) (pastEnd : PastEnd)
  | scan (p : ℕ) (sweep : Sweep)
  | collect (c addr : ℕ) (pastEnd : PastEnd)

/-- The process, if it is running. -/
def running (s : Shared w) (p : ℕ) : Option Process := (s.processes[p]?).filter (·.alive)

/-- The state after the end of a process. -/
def kill (s : Shared w) (p : ℕ) : Shared w :=
  { s with processes := s.processes.modify p fun q => { q with alive := false } }

/-- The state after a process has asked for a block; a process that does not allow failure ends
when there is none. -/
def request (s : Shared w) (p pid size : ℕ) (allowFail : Bool) : Shared w :=
  match s.heap.malloc size pid allowFail with
  | none => s.kill p
  | some (addr, heap) =>
    { s with
      heap := heap
      owner := if s.heap.Serves size then Function.update s.owner addr p else s.owner }

/-- The entry of a collector's `free` in the list of releases: none if the address is not
allocated. -/
def release (s : Shared w) (sweep : Sweep) (addr : ℕ) : List Release :=
  match s.heap.allocList.find? addr with
  | none => []
  | some e => [⟨sweep, (s.running (s.owner addr)).isSome, e.pid⟩]

/-- The state after a collector has freed one of its addresses. -/
def collect (s : Shared w) (c : ℕ) (col : Collector) (addr : ℕ) (pastEnd : PastEnd) : Shared w :=
  { s with
    heap := (s.heap.free pastEnd addr).2
    collectors := s.collectors.set c { col with needFree := col.needFree.erase addr }
    releases := s.release col.sweep addr ++ s.releases }

/-- One critical section.  The set `need_free` is unordered, so which of its addresses comes next
is part of the action. -/
def step (s : Shared w) : Action → Option (Shared w)
  | .spawn pid uid =>
    if s.processes.any fun p => p.alive && p.pid == pid then none
    else some { s with processes := s.processes ++ [⟨pid, uid, true⟩] }
  | .exit p => (s.running p).map fun _ => s.kill p
  | .malloc p size allowFail => (s.running p).map fun q => s.request p q.pid size allowFail
  | .free p addr pastEnd =>
    (s.running p).map fun _ => { s with heap := (s.heap.free pastEnd addr).2 }
  | .scan p sweep =>
    (s.running p).map fun q =>
      { s with collectors := s.collectors ++ [⟨p, sweep, s.scan q sweep⟩] }
  | .collect c addr pastEnd =>
    (s.collectors[c]?).bind fun col =>
      if (s.running col.caller).isSome ∧ addr ∈ col.needFree then some (s.collect c col addr pastEnd)
      else none

/-- A configured heap that no process uses yet. -/
def init (cfg : Config w) : Shared w := ⟨cfg.heap, [], fun _ => 0, [], []⟩

/-! ### Legitimate releases -/

end Shared

/-- The block was one that the call may release: its process is dead, or its pid is the argument. -/
def Release.Legitimate (r : Release) : Prop :=
  match r.sweep with
  | .garbageCollect => r.ownerAlive = false
  | .freeAllPid pid => r.pid = pid

namespace Shared

/-- The condition on a critical section: a request is not given an address that a collector has
still to free, and `garbage_collect` may signal the running processes that own a block. -/
def StepOk (s : Shared w) : Action → Prop
  | .malloc p size allowFail => ∀ q ∈ s.processes[p]?, ∀ r ∈ s.heap.malloc size q.pid allowFail,
      s.heap.Serves size → ∀ c ∈ s.collectors, r.1 ∉ c.needFree
  | .scan p .garbageCollect => ∀ caller ∈ s.processes[p]?, ∀ q ∈ s.processes, q.alive = true →
      (∃ e ∈ s.heap.allocList.entries, e.2.pid = q.pid) → caller.maySignal q = true
  | _ => True

instance (s : Shared w) (a : Action) : Decidable (s.StepOk a) := by
  unfold StepOk
  split <;> infer_instance

/-! ### What a collector has in its set -/

/-- The call may release the block at an address. -/
def Condemned (s : Shared w) (addr : ℕ) (e : AllocEntry) : Sweep → Prop
  | .garbageCollect => ∀ q, s.processes[s.owner addr]? = some q → q.alive = false
  | .freeAllPid pid => e.pid = pid

/-- Every allocated block has the pid of its process, the blocks at the addresses of a collector
may be released by its call, and every release was legitimate. -/
structure Sound (s : Shared w) : Prop where
  owned : ∀ addr e, (addr, e) ∈ s.heap.allocList.entries →
    ∃ q, s.processes[s.owner addr]? = some q ∧ q.pid = e.pid
  condemned : ∀ c ∈ s.collectors, ∀ addr ∈ c.needFree, ∀ e,
    (addr, e) ∈ s.heap.allocList.entries → s.Condemned addr e c.sweep
  legitimate : ∀ r ∈ s.releases, r.Legitimate

/-- Processes keep their number and their pid, and do not come back to life. -/
def Aged (ps ps' : List Process) : Prop :=
  ∀ (i : ℕ) (q : Process), ps[i]? = some q →
    ∃ q' : Process, ps'[i]? = some q' ∧ q'.pid = q.pid ∧ (q'.alive = true → q.alive = true)

/-- Without a change the processes have aged. -/
lemma Aged.refl (ps : List Process) : Aged ps ps := fun _ q h => ⟨q, h, rfl, id⟩

/-- A new process is added behind the others. -/
lemma Aged.append (ps qs : List Process) : Aged ps (ps ++ qs) := by
  intro i q h
  have hlt : i < ps.length := (List.getElem?_eq_some_iff.mp h).1
  exact ⟨q, by rw [List.getElem?_append_left hlt, h], rfl, id⟩

/-- The end of a process ages it. -/
lemma aged_kill (s : Shared w) (p : ℕ) : Aged s.processes (s.kill p).processes := by
  intro i q h
  by_cases hp : p = i
  · subst hp
    refine ⟨{ q with alive := false }, ?_, rfl, fun hcon => by simp at hcon⟩
    simp [kill, h]
  · exact ⟨q, by simp [kill, hp, h], rfl, id⟩

/-- A state with fewer blocks and fewer addresses left to free than a sound one, whose processes
have aged, is sound if its releases are legitimate. -/
lemma Sound.shrink {s s' : Shared w} (h : Sound s) (haged : Aged s.processes s'.processes)
    (howner : s'.owner = s.owner)
    (hblocks : ∀ e ∈ s'.heap.allocList.entries, e ∈ s.heap.allocList.entries)
    (hcols : ∀ c ∈ s'.collectors, ∃ c₀ ∈ s.collectors, c₀.sweep = c.sweep ∧
      ∀ addr ∈ c.needFree, addr ∈ c₀.needFree)
    (hrel : ∀ r ∈ s'.releases, r.Legitimate) : Sound s' where
  owned addr e he := by
    obtain ⟨q, hq, hpid⟩ := h.owned addr e (hblocks _ he)
    obtain ⟨q', hq', hpid', -⟩ := haged _ q hq
    exact ⟨q', by rw [howner, hq'], hpid'.trans hpid⟩
  condemned c hc addr haddr e he := by
    obtain ⟨c₀, hc₀, hsweep, hsub⟩ := hcols c hc
    have hold := h.condemned c₀ hc₀ addr (hsub addr haddr) e (hblocks _ he)
    rw [hsweep] at hold
    cases hs : c.sweep with
    | freeAllPid pid => rwa [hs] at hold
    | garbageCollect =>
      rw [hs] at hold
      intro q' hq'
      obtain ⟨q, hq, -⟩ := h.owned addr e (hblocks _ he)
      obtain ⟨q₁, hq₁, -, halive⟩ := haged _ q hq
      rw [howner, hq₁] at hq'
      obtain rfl := Option.some.inj hq'
      have hdead := hold q hq
      cases hal : q₁.alive with
      | false => rfl
      | true => exact absurd (halive hal) (by simp [hdead])
  legitimate := hrel

/-- The collectors of a state are collectors with the same addresses left. -/
lemma same_collectors (s : Shared w) : ∀ c ∈ s.collectors, ∃ c₀ ∈ s.collectors,
    c₀.sweep = c.sweep ∧ ∀ addr ∈ c.needFree, addr ∈ c₀.needFree :=
  fun c hc => ⟨c, hc, rfl, fun _ ha => ha⟩

/-! ### One critical section -/

/-- A running process is one of the processes. -/
lemma running_eq_some {s : Shared w} {p : ℕ} {q : Process} (h : s.running p = some q) :
    s.processes[p]? = some q ∧ q.alive = true := by
  simpa [running, Option.filter_eq_some_iff] using h

/-- Addresses collected by a scan may be released by its call. -/
lemma condemned_scan {s : Shared w} (h : Sound s) {p : ℕ} {caller : Process} {sweep : Sweep}
    (hok : s.StepOk (.scan p sweep)) (hp : s.processes[p]? = some caller) {addr : ℕ}
    (haddr : addr ∈ s.scan caller sweep) {e : AllocEntry}
    (he : (addr, e) ∈ s.heap.allocList.entries) : s.Condemned addr e sweep := by
  cases sweep with
  | freeAllPid pid =>
    obtain ⟨e', he', rfl⟩ := List.mem_map.mp haddr
    obtain ⟨hmem, hpid⟩ := List.mem_filter.mp he'
    have heq := OrderedMap.eq_of_mem_of_key_eq hmem he rfl
    rw [heq] at hpid
    have hpid' : e.pid = pid := of_decide_eq_true hpid
    exact hpid'
  | garbageCollect =>
    obtain ⟨e', he', rfl⟩ := List.mem_map.mp haddr
    obtain ⟨hmem, hgone⟩ := List.mem_filter.mp he'
    have heq := OrderedMap.eq_of_mem_of_key_eq hmem he rfl
    rw [heq] at hgone
    intro q hq
    obtain ⟨q', hq', hpid⟩ := h.owned _ e he
    obtain rfl : q' = q := Option.some.inj (hq'.symm.trans hq)
    cases hal : q'.alive with
    | false => rfl
    | true =>
      -- a running owner that the caller may signal would have been found
      have hmem' : q' ∈ s.processes := List.mem_of_getElem? hq'
      have hsig : caller.maySignal q' = true := hok caller hp q' hmem' hal ⟨_, he, hpid.symm⟩
      have hexists : processExists s.processes caller e.pid = true :=
        List.any_eq_true.mpr ⟨q', hmem', by simp [hal, hpid, hsig]⟩
      simp [hexists] at hgone

/-- A request keeps the state sound. -/
lemma sound_request {s : Shared w} (h : Sound s) {p size : ℕ} {allowFail : Bool} {q : Process}
    (hp : s.processes[p]? = some q) (hok : s.StepOk (.malloc p size allowFail)) :
    Sound (s.request p q.pid size allowFail) := by
  unfold request
  cases hm : s.heap.malloc size q.pid allowFail with
  | none => exact h.shrink (s.aged_kill p) rfl (fun _ he => he) s.same_collectors h.legitimate
  | some r =>
    obtain ⟨addr, heap⟩ := r
    rcases malloc_cases hm with ⟨hserve, kv, hkv, pl, hplace, rfl, rfl⟩ | ⟨hnot, -, rfl⟩
    · have hfresh := hok q hp (_, _) hm hserve
      have hmem : ∀ e, e ∈ (s.heap.occupy pl (s.heap.roundSize size) q.pid).allocList.entries →
          e = (pl.availAddr, ⟨s.heap.roundSize size, q.pid⟩) ∨
            e ∈ s.heap.allocList.entries ∧ e.1 ≠ pl.availAddr := fun e he => OrderedMap.mem_insert.mp he
      simp only [if_pos hserve]
      refine ⟨?_, ?_, h.legitimate⟩
      · intro addr e he
        rcases hmem _ he with heq | ⟨hold, hne⟩
        · obtain ⟨rfl, rfl⟩ := Prod.mk.inj heq
          exact ⟨q, by simp [hp], rfl⟩
        · obtain ⟨q', hq', hpid⟩ := h.owned addr e hold
          exact ⟨q', by simpa [Function.update_of_ne hne] using hq', hpid⟩
      · intro c hc addr haddr e he
        -- the new block is at none of the addresses that are left to free
        have hne : addr ≠ pl.availAddr := fun heq => hfresh c hc (heq ▸ haddr)
        rcases hmem _ he with heq | ⟨hold, -⟩
        · exact absurd (Prod.mk.inj heq).1 hne
        · have hcond := h.condemned c hc addr haddr e hold
          cases hs : c.sweep with
          | freeAllPid pid => rwa [hs] at hcond
          | garbageCollect =>
            rw [hs] at hcond
            intro q' hq'
            exact hcond q' (by simpa [Function.update_of_ne hne] using hq')
    · simp only [if_neg hnot]
      exact ⟨h.owned, h.condemned, h.legitimate⟩

/-- A release by a collector is legitimate. -/
lemma legitimate_release {s : Shared w} (h : Sound s) {col : Collector} (hcol : col ∈ s.collectors)
    {addr : ℕ} (haddr : addr ∈ col.needFree) : ∀ r ∈ s.release col.sweep addr, r.Legitimate := by
  intro r hr
  unfold release at hr
  cases hf : s.heap.allocList.find? addr with
  | none => simp [hf] at hr
  | some e =>
    simp only [hf, List.mem_singleton] at hr
    subst hr
    have hcond := h.condemned col hcol addr haddr e (OrderedMap.find?_eq_some_iff.mp hf)
    unfold Release.Legitimate
    cases hs : col.sweep with
    | freeAllPid pid => rwa [hs] at hcond
    | garbageCollect =>
      rw [hs] at hcond
      simp only [Option.isSome_eq_false_iff, Option.isNone_iff_eq_none, running,
        Option.filter_eq_none_iff]
      intro q hq
      simp [hcond q hq]

/-- Every critical section that meets its condition keeps the state sound. -/
lemma sound_step {s s' : Shared w} {a : Action} (h : Sound s) (hok : s.StepOk a)
    (hs : s.step a = some s') : Sound s' := by
  cases a with
  | spawn pid uid =>
    simp only [step, Option.ite_none_left_eq_some, Option.some.injEq] at hs
    obtain ⟨-, rfl⟩ := hs
    exact h.shrink (Aged.append _ _) rfl (fun _ he => he) s.same_collectors h.legitimate
  | exit p =>
    obtain ⟨q, -, rfl⟩ := Option.map_eq_some_iff.mp hs
    exact h.shrink (s.aged_kill p) rfl (fun _ he => he) s.same_collectors h.legitimate
  | malloc p size allowFail =>
    obtain ⟨q, hq, rfl⟩ := Option.map_eq_some_iff.mp hs
    exact sound_request h (running_eq_some hq).1 hok
  | free p addr pastEnd =>
    obtain ⟨q, -, rfl⟩ := Option.map_eq_some_iff.mp hs
    exact h.shrink (Aged.refl _) rfl (fun _ he => (mem_free_allocList.mp he).1) s.same_collectors
      h.legitimate
  | scan p sweep =>
    obtain ⟨q, hq, rfl⟩ := Option.map_eq_some_iff.mp hs
    refine ⟨h.owned, ?_, h.legitimate⟩
    intro c hc addr haddr e he
    rcases List.mem_append.mp hc with hc | hc
    · exact h.condemned c hc addr haddr e he
    · obtain rfl := List.mem_singleton.mp hc
      exact condemned_scan h hok (running_eq_some hq).1 haddr he
  | collect c addr pastEnd =>
    simp only [step, Option.bind_eq_some_iff, Option.ite_none_right_eq_some,
      Option.some.injEq] at hs
    obtain ⟨col, hcol, ⟨-, haddr⟩, rfl⟩ := hs
    have hmem : col ∈ s.collectors := List.mem_of_getElem? hcol
    refine h.shrink (Aged.refl _) rfl (fun _ he => (mem_free_allocList.mp he).1) ?_ ?_
    · intro c' hc'
      rcases List.mem_or_eq_of_mem_set hc' with hc' | rfl
      · exact s.same_collectors c' hc'
      · exact ⟨col, hmem, rfl, fun _ ha => List.mem_of_mem_erase ha⟩
    · intro r hr
      rcases List.mem_append.mp hr with hr | hr
      · exact legitimate_release h hmem haddr r hr
      · exact h.legitimate r hr

/-! ### Whole runs -/

/-- A configured heap has no allocated block. -/
lemma allocList_config (cfg : Config w) : cfg.heap.allocList.entries = [] := by
  have hconf : ((constructed : HeapManager w).configure cfg.startAddr cfg.length
      (2 ^ cfg.blockLog)).allocList.entries = [] := by
    unfold configure
    split <;> rfl
  unfold Config.heap
  cases cfg.maxAlignLog with
  | none => exact hconf
  | some k =>
    simp only [setAdditionalAlignmentRequirements]
    split <;> exact hconf

/-- In every run of the processes that share a configured heap, whose critical sections all meet
their conditions, every block released by a collector was one that its call may release. -/
theorem releases_legitimate (cfg : Config w) (actions : List Action)
    (hok : Machine.RunOk step StepOk (init cfg) actions) (s : Shared w)
    (hrun : Machine.run step (init cfg) actions = some s) : ∀ r ∈ s.releases, r.Legitimate := by
  have hinit : Sound (init cfg) := by
    refine ⟨fun addr e he => ?_, fun c hc => by simp [init] at hc, fun r hr => by simp [init] at hr⟩
    have hnil : (init cfg).heap.allocList.entries = [] := allocList_config cfg
    rw [hnil] at he
    simp at he
  have hstep : ∀ (s : Shared w) a s', Sound s → s.StepOk a → s.step a = some s' → Sound s' :=
    fun _ _ _ h ho hs => sound_step h ho hs
  exact (Machine.invariant_of_runOk hstep hok hrun hinit).legitimate

/-- A process dies with a block, `garbage_collect` releases it, and the block is given to another
process. -/
def collectedOnce : List Action :=
  [.spawn 7 1000, .spawn 8 0, .malloc 0 100 true, .exit 0, .scan 1 .garbageCollect,
    .collect 0 0x80000000 ⟨0, 0⟩, .malloc 1 100 true]

/-- The only release of that run is legitimate. -/
theorem releases_legitimate_collectedOnce : ∃ s : Shared 64,
    Machine.run step (init smallConfig) collectedOnce = some s ∧
      s.releases = [⟨.garbageCollect, false, 7⟩] ∧ ∀ r ∈ s.releases, r.Legitimate := by
  have hlog : (Machine.run step (init smallConfig) collectedOnce).map (fun s => s.releases) =
      some [⟨.garbageCollect, false, 7⟩] := by decide
  obtain ⟨s, hrun, hrel⟩ := Option.map_eq_some_iff.mp hlog
  have hok : Machine.RunOk step StepOk (init smallConfig) collectedOnce := by decide
  exact ⟨s, hrun, hrel, releases_legitimate smallConfig collectedOnce hok s hrun⟩

/-- Two collectors have the block of a dead process in their sets.  The first releases it, the
address is given to a running process, and the second releases it again. -/
def collectedTwice : List Action :=
  [.spawn 7 0, .spawn 8 0, .spawn 9 0, .spawn 10 0, .malloc 0 100 true, .exit 0,
    .scan 1 .garbageCollect, .scan 2 .garbageCollect, .collect 0 0x80000000 ⟨0, 0⟩,
    .malloc 3 100 true, .collect 1 0x80000000 ⟨0, 0⟩]

/-- While `free_all_pid` runs for a process, the process frees the block itself, and the address is
given to another process. -/
def freedMeanwhile : List Action :=
  [.spawn 7 0, .spawn 8 0, .malloc 0 100 true, .scan 0 (.freeAllPid 7),
    .free 0 0x80000000 ⟨0, 0⟩, .malloc 1 100 true, .collect 0 0x80000000 ⟨0, 0⟩]

/-- A user collects while a process of another user has a block. -/
def collectedByUser : List Action :=
  [.spawn 7 1000, .spawn 8 1001, .malloc 0 100 true, .scan 1 .garbageCollect,
    .collect 0 0x80000000 ⟨0, 0⟩]

/-- In the first and the last of these runs `garbage_collect` releases a block of a running process,
and in the second `free_all_pid` one of another pid. -/
theorem not_legitimate_stale :
    (Machine.run step (init smallConfig) collectedTwice).map (fun s => s.releases) =
        some [⟨.garbageCollect, true, 10⟩, ⟨.garbageCollect, false, 7⟩] ∧
      (Machine.run step (init smallConfig) freedMeanwhile).map (fun s => s.releases) =
        some [⟨.freeAllPid 7, true, 8⟩] ∧
      (Machine.run step (init smallConfig) collectedByUser).map (fun s => s.releases) =
        some [⟨.garbageCollect, true, 7⟩] ∧
      ¬ Release.Legitimate ⟨.garbageCollect, true, 10⟩ ∧
      ¬ Release.Legitimate ⟨.freeAllPid 7, true, 8⟩ ∧
      ¬ Release.Legitimate ⟨.garbageCollect, true, 7⟩ := by
  refine ⟨by decide, by decide, by decide, ?_, ?_, ?_⟩ <;>
    simp [Release.Legitimate]

end Shared

end HeapManager

end TiOpenCL
