/-
What an answer of the block driver is about: `user/k4disk/src/main.rs`.

One transfer is published at a time, and all of them use the same header, descriptors and
status byte.  So long as a transfer is published only when the completions of all before it
have been consumed, the device has one chain at most, and `Standing` says how far it is with
it.  A transfer that was given up on stays with the device: the next one is written over it,
and its completion is taken for the next one's.
-/
import ThalyxKernel.Disk.Driver

namespace Thalyx.Disk

open Virtqueue List DeviceSide Option

variable {q : Queue} {f : Faults} {r : DiskRequest} {t : Transfer} {m : Memory} {k first : Nat}
  {stage : Stage} {s s' : State} {job : Job} {rest : List Write}

/-! ### What is published -/

/-- Every write but the last leaves the indices as they are. -/
def Write.Inner (w : Write) : Prop := ∀ value, w ≠ .availIndex value

theorem write_used (m : Memory) (w : Write) :
    (m.write w).rings.usedIndex = m.rings.usedIndex ∧ (m.write w).rings.used = m.rings.used := by
  cases w <;> exact ⟨rfl, rfl⟩

theorem write_avail {w : Write} (h : w.Inner) :
    (m.write w).rings.availIndex = m.rings.availIndex := by
  cases w with
  | availIndex value => exact absurd rfl (h value)
  | _ => rfl

theorem writes_eq (q : Queue) (t : Transfer) :
    ∃ body, writes q t = body ++ [.availIndex (bump q.availIndex)] ∧ ∀ w ∈ body, w.Inner := by
  refine ⟨[.requestType t.kind, .reserved 0, .sector t.sector, .status 0xFF] ++ descriptors q t
    ++ [.avail (q.availIndex % q.size) 0], by simp [writes], ?_⟩
  intro w hw value heq
  subst heq
  unfold descriptors at hw
  split at hw <;> simp at hw

/-- The memory holds a transfer, in the slot of an index. -/
structure Memory.Holds (m : Memory) (q : Queue) (index : Nat) (t : Transfer) : Prop where
  head : m.rings.avail (index % q.size) = 0
  chain : ∀ op, (m.rings.chain q.size 0).bind (m.operation q) = some op → op = t.operation q

/-- **What the device reads of what was published is the transfer.** -/
theorem holds_writes (m : Memory) (q : Queue) (t : Transfer) :
    ((writes q t).foldl Memory.write m).Holds q q.availIndex t := by
  by_cases hlength : t.length = 0
  · refine ⟨?_, ?_⟩
    · simp [writes, descriptors, hlength, Memory.write]
    · intro op hop
      rcases hsize : q.size with _ | _ | turns
      · simp [hsize, Rings.chain] at hop
      · simp [hsize, Rings.chain, writes, descriptors, hlength, Memory.write] at hop
      · simp [hsize, Rings.chain, writes, descriptors, hlength, Memory.write,
          Memory.operation] at hop
        simp [← hop, Transfer.operation, hlength]
  · refine ⟨?_, ?_⟩
    · simp [writes, descriptors, hlength, Memory.write]
    · intro op hop
      by_cases hkind : t.kind = blkIn
      all_goals
        rcases hsize : q.size with _ | _ | _ | turns
        · simp [hsize, Rings.chain] at hop
        · simp [hsize, Rings.chain, writes, descriptors, hlength, hkind, Memory.write] at hop
        · simp [hsize, Rings.chain, writes, descriptors, hlength, hkind, Memory.write] at hop
        · simp [hsize, Rings.chain, writes, descriptors, hlength, hkind, Memory.write,
            Memory.operation] at hop
          simp [← hop, Transfer.operation, hlength, hkind]

/-! ### What a request comes to -/

/-- The transfer is the one a stage of the request issues. -/
def Fits (q : Queue) (r : DiskRequest) (t : Transfer) : Stage → Prop
  | .read => r.op = opRead ∧ t = State.asks q r
  | .write _ _ => r.op = opWrite ∧ t = State.asks q r
  | .held => r.op = opFlush
  | .flush => r.op = opFlush ∧ t = State.asks q r

/-- What follows is answered at once, with `OK` only where `good` is, or is a transfer. -/
def Serves (q : Queue) (r : DiskRequest) (good : Prop) (next : Next) : Prop :=
  (∃ f reply, next = .reply f reply ∧ (reply.status = statusOk → good))
    ∨ (∃ f stage t, next = .issue f stage t ∧ Fits q r t stage) ∨ next = .overflow

variable {good : Prop}

theorem serves_answer {status applied transferred : Nat}
    (h : status = statusOk → good) : Serves q r good (f.answer status applied transferred) :=
  .inl ⟨_, _, rfl, h⟩

theorem serves_transfer {kind block data bytes : Nat}
    (h : Fits q r ⟨kind, block * sectorsPerBlock, data, bytes⟩ stage) :
    Serves q r good (transfer f stage kind block data bytes) := by
  unfold transfer
  split
  · exact .inr (.inl ⟨_, _, _, rfl, h⟩)
  · exact .inr (.inr rfl)

theorem serves_flush (h : r.op = opFlush) : Serves q r good (flush f) := by
  refine serves_transfer ⟨h, ?_⟩
  rw [State.asks, h]
  rfl

theorem serves_write (h : r.op = opWrite) :
    Serves q r (¬ State.ForDevice r) (writeWithFaults q f r) := by
  have hnot : r.faultMode = faultDropWrite ∨ r.faultMode = faultReorder → ¬ State.ForDevice r := by
    intro hmode hfor
    rcases hfor with hop | hop | ⟨-, hdrop, hreorder⟩
    · rw [h] at hop
      cases hop
    · rw [h] at hop
      cases hop
    · exact hmode.elim hdrop hreorder
  unfold writeWithFaults
  split
  · rename_i hdrop
    exact serves_answer fun _ => hnot (.inl hdrop)
  split
  · exact serves_answer nofun
  split
  · rename_i hreorder
    split
    · exact serves_answer nofun
    · exact serves_answer fun _ => hnot (.inr hreorder)
  · refine serves_transfer ⟨h, ?_⟩
    rw [State.asks, h]
    simp

theorem serves (q : Queue) (f : Faults) (r : DiskRequest) :
    Serves q r (¬ State.ForDevice r) (serve q f r) := by
  unfold serve
  split
  · rename_i hop
    split
    · exact serves_answer nofun
    · refine serves_transfer ⟨hop, ?_⟩
      rw [State.asks, hop]
      rfl
  rename_i hread
  split
  · rename_i hop
    split
    · exact serves_answer nofun
    split
    · exact serves_answer nofun
    · exact serves_write hop
  rename_i hwrite
  split
  · rename_i hop
    split
    · exact serves_answer nofun
    split
    · exact serves_flush hop
    · exact serves_transfer hop
  rename_i hflush
  have hnot : ¬ State.ForDevice r := by
    rintro (hop | hop | hop)
    · exact hread hop
    · exact hflush hop
    · exact hwrite hop.1
  split
  · exact serves_answer fun _ => hnot
  split
  · exact serves_answer fun _ => hnot
  · exact serves_answer nofun

theorem serves_resume (hfits : Fits q r t stage) :
    Serves q r (t = State.asks q r) (resume f r true stage) := by
  cases stage with
  | read => exact serves_answer fun _ => hfits.2
  | write torn issue =>
    cases torn
    · exact serves_answer fun _ => hfits.2
    · exact serves_answer fun _ => hfits.2
  | held => exact serves_flush hfits
  | flush => exact serves_answer fun _ => hfits.2

theorem resume_false (f : Faults) (r : DiskRequest) (stage : Stage) :
    ∃ reply, resume f r false stage = .reply f reply ∧ reply.status ≠ statusOk := by
  cases stage <;> exact ⟨_, rfl, nofun⟩

/-! ### Where the device is -/

namespace State

/-- The device is done with all that was published, and so many completions were consumed. -/
structure Quiet (s : State) (k : Nat) : Prop where
  inflight : s.device.inflight = []
  available : s.mem.rings.availIndex = s.queue.usedIndex
  lastAvail : s.device.lastAvail = s.queue.usedIndex
  takes : s.device.takes = k
  posted : s.device.posted.length = k
  used : s.mem.rings.usedIndex = s.queue.usedIndex

/-- How far the device is with the transfer `k`, the only one it has not been done with. -/
inductive Standing (s : State) (k : Nat) (t : Transfer) : Prop where
  | published (hinflight : s.device.inflight = []) (hlast : s.device.lastAvail = s.queue.usedIndex)
      (hholds : s.mem.Holds s.queue s.queue.usedIndex t) (htakes : s.device.takes = k)
      (hposted : s.device.posted.length = k) (hused : s.mem.rings.usedIndex = s.queue.usedIndex)
  | taken (hinflight : s.device.inflight = [⟨k, 0, t.operation s.queue, none⟩])
      (hlast : s.device.lastAvail = bump s.queue.usedIndex) (htakes : s.device.takes = k + 1)
      (hposted : s.device.posted.length = k) (hused : s.mem.rings.usedIndex = s.queue.usedIndex)
  | finished (status : Nat)
      (hinflight : s.device.inflight = [⟨k, 0, t.operation s.queue, some status⟩])
      (hlast : s.device.lastAvail = bump s.queue.usedIndex) (htakes : s.device.takes = k + 1)
      (hposted : s.device.posted.length = k) (hused : s.mem.rings.usedIndex = s.queue.usedIndex)
      (hstatus : s.mem.status = status)
      (hcompleted : (k, t.operation s.queue, status) ∈ s.device.completed)
  | posted (len : Nat) (hinflight : s.device.inflight = [])
      (hlast : s.device.lastAvail = bump s.queue.usedIndex) (htakes : s.device.takes = k + 1)
      (hposted : s.device.posted.length = k + 1) (hlatest : s.device.posted[k]? = some k)
      (hused : s.mem.rings.usedIndex = bump s.queue.usedIndex)
      (hentry : s.mem.rings.used (s.queue.usedIndex % s.queue.size) = ⟨0, len⟩)
      (hcompleted : (k, t.operation s.queue, s.mem.status) ∈ s.device.completed)

/-- A transfer that was published and whose completion was not consumed. -/
structure Current (s : State) (k : Nat) (t : Transfer) : Prop where
  length : s.made.length = k + 1
  latest : s.made[k]? = some t
  consumed : s.consumed.length = k
  index : s.queue.availIndex = bump s.queue.usedIndex
  available : s.mem.rings.availIndex = bump s.queue.usedIndex
  standing : s.Standing k t

/-- What the driver is doing with a transfer. -/
structure Works (s : State) (job : Job) (k : Nat) (t : Transfer) : Prop where
  first : job.first ≤ k
  earlier : ∀ i, job.first ≤ i → i < k → s.Completed i 0
  fits : Fits s.queue job.request t job.stage

/-- A transfer that is being published. -/
structure Publishes (s : State) (rest : List Write) (k : Nat) (t : Transfer) : Prop where
  length : s.made.length = k + 1
  latest : s.made[k]? = some t
  consumed : s.consumed.length = k
  index : s.queue.availIndex = bump s.queue.usedIndex
  quiet : s.Quiet k
  inner : ∃ body, rest = body ++ [.availIndex s.queue.availIndex] ∧ ∀ w ∈ body, w.Inner
  holds : (rest.foldl Memory.write s.mem).Holds s.queue s.queue.usedIndex t

/-- Between two transfers, with nothing left of the earlier ones. -/
structure Settled (s : State) : Prop where
  quiet : s.Quiet s.made.length
  consumed : s.consumed.length = s.made.length
  index : s.queue.availIndex = s.queue.usedIndex

/-- What holds where the driver is. -/
def Phase (s : State) : Prop :=
  match s.pc with
  | .idle | .overflowed => s.Settled ∨ ∃ k t, s.Current k t
  | .publishing rest job => ∃ k t, s.Publishes rest k t ∧ s.Works job k t
  | .polling _ job | .waiting _ job => ∃ k t, s.Current k t ∧ s.Works job k t
  | .entry _ job =>
    ∃ k t, s.Current k t ∧ s.Works job k t ∧ s.mem.rings.usedIndex ≠ s.queue.usedIndex
  | .status job =>
    s.Settled ∧ ∃ k t, s.made.length = k + 1 ∧ s.made[k]? = some t ∧ s.Works job k t
      ∧ (k, t.operation s.queue, s.mem.status) ∈ s.device.completed

/-- What every run that drains the queue keeps. -/
structure Inv (s : State) : Prop where
  size : 0 < s.queue.size
  index : s.queue.usedIndex < indexRange
  answers : ∀ a ∈ s.answered, s.Honest a
  matched : ∀ p ∈ s.consumed, p.2 = some p.1
  phase : s.Phase

/-- An event of the device. -/
def OfDevice : Event → Prop
  | .take | .finish _ _ | .post _ _ => True
  | _ => False

variable {e : Event}

theorem device_idle (h : ¬ s.device.Busy s.mem.rings) (he : OfDevice e) : s.step e = none := by
  obtain ⟨hinflight, havailable⟩ := not_or.mp h
  have hinflight := not_not.mp hinflight
  cases e with
  | receive request => exact absurd he id
  | drive => exact absurd he id
  | signal ok => exact absurd he id
  | take =>
    rw [step, take_none (not_not.mp havailable)]
    rfl
  | finish i status =>
    rw [step, finish_nil hinflight]
    rfl
  | post i len =>
    rw [step, post_nil hinflight]
    rfl

theorem Quiet.not_busy (h : s.Quiet k) : ¬ s.device.Busy s.mem.rings := by
  rintro (hinflight | havailable)
  · exact hinflight h.inflight
  · exact havailable (h.available.trans h.lastAvail.symm)

theorem Standing.device (h : s.Standing k t)
    (havailable : s.mem.rings.availIndex = bump s.queue.usedIndex) (he : OfDevice e)
    (hstep : s.step e = some s') :
    s'.Standing k t ∧ s'.mem.rings.availIndex = s.mem.rings.availIndex
      ∧ s' = { s with device := s'.device, mem := s'.mem }
      ∧ ∀ c ∈ s.device.completed, c ∈ s'.device.completed := by
  cases e with
  | receive request => exact absurd he id
  | drive => exact absurd he id
  | signal ok => exact absurd he id
  | take =>
    obtain ⟨d, htake, rfl⟩ := map_eq_some_iff.mp hstep
    cases h with
    | published hinflight hlast hholds htakes hposted hused =>
      obtain ⟨op, hop, rfl⟩ := take_some htake
      rw [hlast, hholds.head] at hop
      have heq := hholds.chain op hop
      subst heq
      refine ⟨.taken ?_ ?_ ?_ hposted hused, rfl, rfl, fun c hc => hc⟩
      · simp only [hinflight, hlast, hholds.head, htakes, nil_append]
      · exact congrArg bump hlast
      · exact congrArg (· + 1) htakes
    | taken _ hlast =>
      rw [take_none (havailable.trans hlast.symm)] at htake
      cases htake
    | finished _ _ hlast =>
      rw [take_none (havailable.trans hlast.symm)] at htake
      cases htake
    | posted _ _ hlast =>
      rw [take_none (havailable.trans hlast.symm)] at htake
      cases htake
  | finish i status =>
    obtain ⟨d, hfinish, rfl⟩ := map_eq_some_iff.mp hstep
    cases h with
    | published hinflight =>
      rw [finish_nil hinflight] at hfinish
      cases hfinish
    | taken hinflight hlast htakes hposted hused =>
      obtain ⟨-, -, rfl⟩ := finish_one hinflight hfinish
      refine ⟨.finished status rfl hlast htakes hposted hused rfl ?_, rfl, rfl, ?_⟩
      · exact mem_append_right _ (mem_singleton_self _)
      · intro c hc
        exact mem_append_left _ hc
    | finished _ hinflight =>
      rw [finish_finished hinflight rfl] at hfinish
      cases hfinish
    | posted _ hinflight =>
      rw [finish_nil hinflight] at hfinish
      cases hfinish
  | post i len =>
    obtain ⟨⟨d, rings⟩, hpost, rfl⟩ := map_eq_some_iff.mp hstep
    cases h with
    | published hinflight =>
      rw [post_nil hinflight] at hpost
      cases hpost
    | taken hinflight =>
      rw [post_unfinished hinflight rfl] at hpost
      cases hpost
    | finished status hinflight hlast htakes hposted hused hstatus hcompleted =>
      obtain ⟨rfl, rfl⟩ := post_one hinflight hpost
      refine ⟨.posted len rfl hlast htakes ?_ ?_ ?_ ?_ (hstatus ▸ hcompleted), rfl, rfl,
        fun c hc => hc⟩
      · simp [hposted]
      · simp [← hposted]
      · exact congrArg bump hused
      · simp [hused]
    | posted _ hinflight =>
      rw [post_nil hinflight] at hpost
      cases hpost

/-! ### What stays true -/

/-- Nothing that was published or completed is taken back. -/
structure Extends (s s' : State) : Prop where
  made : ∀ (k : Nat) (t : Transfer), s.made[k]? = some t → s'.made[k]? = some t
  ringIova : s'.queue.ringIova = s.queue.ringIova
  iobufIova : s'.queue.iobufIova = s.queue.iobufIova
  completed : ∀ c ∈ s.device.completed, c ∈ s'.device.completed

theorem Extends.operation (h : Extends s s') (t : Transfer) :
    t.operation s'.queue = t.operation s.queue := by
  unfold Transfer.operation
  rw [h.ringIova]

theorem Extends.asks (h : Extends s s') (r : DiskRequest) :
    State.asks s'.queue r = State.asks s.queue r := by
  unfold State.asks DiskRequest.data
  rw [h.iobufIova]

theorem Extends.isCompleted (h : Extends s s') {status : Nat} (hk : s.Completed k status) :
    s'.Completed k status := by
  obtain ⟨t, hmade, hmem⟩ := hk
  exact ⟨t, h.made k t hmade, (h.operation t).symm ▸ h.completed _ hmem⟩

theorem Extends.honest (h : Extends s s') {a : Answered} (ha : s.Honest a) : s'.Honest a := by
  intro hok hfor
  obtain ⟨hlt, hlast, hall⟩ := ha hok hfor
  refine ⟨hlt, ?_, ?_⟩
  · rw [h.asks]
    exact h.made _ _ hlast
  · intro k hlow hhigh
    exact h.isCompleted (hall k hlow hhigh)

theorem Extends.works (h : Extends s s') (hw : s.Works job k t) : s'.Works job k t := by
  refine ⟨hw.first, fun i hlow hhigh => h.isCompleted (hw.earlier i hlow hhigh), ?_⟩
  have hfits := hw.fits
  unfold Fits at hfits ⊢
  simp only [h.asks]
  exact hfits

theorem Extends.of_eq (hmade : s'.made = s.made) (hring : s'.queue.ringIova = s.queue.ringIova)
    (hiobuf : s'.queue.iobufIova = s.queue.iobufIova)
    (hcompleted : s'.device.completed = s.device.completed) : Extends s s' := by
  refine ⟨?_, hring, hiobuf, ?_⟩
  · intro k t hk
    rw [hmade]
    exact hk
  · intro c hc
    rw [hcompleted]
    exact hc

theorem Inv.update (h : s.Inv) (hext : Extends s s') (hsize : s'.queue.size = s.queue.size)
    (hindex : s'.queue.usedIndex = s.queue.usedIndex) (hconsumed : s'.consumed = s.consumed)
    (hanswered : ∀ a ∈ s'.answered, a ∈ s.answered ∨ s'.Honest a) (hphase : s'.Phase) : s'.Inv := by
  refine ⟨hsize ▸ h.size, hindex ▸ h.index, ?_, ?_, hphase⟩
  · intro a ha
    rcases hanswered a ha with hold | hnew
    · exact hext.honest (h.answers a hold)
    · exact hnew
  · intro p hp
    rw [hconsumed] at hp
    exact h.matched p hp

/-! ### One step -/

variable {faults : Faults}
variable {pc : Pc} {answered : List Answered}

theorem Settled.frame (h : s.Settled) : Settled { s with faults, pc, answered } := by
  obtain ⟨⟨h1, h2, h3, h4, h5, h6⟩, hconsumed, hindex⟩ := h
  exact ⟨⟨h1, h2, h3, h4, h5, h6⟩, hconsumed, hindex⟩

theorem Current.frame (h : s.Current k t) : Current { s with faults, pc, answered } k t := by
  obtain ⟨hlength, hlatest, hconsumed, hindex, havailable, hstanding⟩ := h
  refine ⟨hlength, hlatest, hconsumed, hindex, havailable, ?_⟩
  cases hstanding with
  | published h1 h2 h3 h4 h5 h6 => exact .published h1 h2 h3 h4 h5 h6
  | taken h1 h2 h3 h4 h5 => exact .taken h1 h2 h3 h4 h5
  | finished status h1 h2 h3 h4 h5 h6 h7 => exact .finished status h1 h2 h3 h4 h5 h6 h7
  | posted len h1 h2 h3 h4 h5 h6 h7 h8 => exact .posted len h1 h2 h3 h4 h5 h6 h7 h8

theorem Works.frame (h : s.Works job k t) : Works { s with pc } job k t :=
  ⟨h.first, h.earlier, h.fits⟩

theorem Inv.move (h : s.Inv) (hphase : Phase { s with pc }) : State.Inv { s with pc } :=
  h.update (.of_eq rfl rfl rfl rfl) rfl rfl rfl (fun _ ha => .inl ha) hphase

theorem Inv.reply (h : s.Inv) {reply : DiskReply} (hidle : s.Settled ∨ ∃ k t, s.Current k t)
    (hhonest : s.Honest ⟨r, reply, first, s.made.length⟩) :
    (s.follow r first (.reply faults reply)).Inv := by
  have hext : Extends s (s.follow r first (.reply faults reply)) := .of_eq rfl rfl rfl rfl
  refine h.update hext rfl rfl rfl ?_ ?_
  · intro a ha
    rcases mem_append.mp ha with ha | ha
    · exact .inl ha
    · rw [mem_singleton.mp ha]
      exact .inr (hext.honest hhonest)
  · exact hidle.imp Settled.frame fun ⟨k, t, hcurrent⟩ => ⟨k, t, hcurrent.frame⟩

theorem Inv.issue (h : s.Inv) (hsettled : s.Settled)
    (hfits : Fits s.queue r t stage) (hfirst : first ≤ s.made.length)
    (hearlier : ∀ i, first ≤ i → i < s.made.length → s.Completed i 0) :
    (s.follow r first (.issue faults stage t)).Inv := by
  have hext : Extends s (s.follow r first (.issue faults stage t)) := by
    refine ⟨?_, rfl, rfl, fun c hc => hc⟩
    intro k u hk
    exact (getElem?_append_left (List.getElem?_eq_some_iff.mp hk).1).trans hk
  refine h.update hext rfl rfl rfl (fun a ha => .inl ha) ?_
  obtain ⟨⟨h1, h2, h3, h4, h5, h6⟩, hconsumed, hindex⟩ := hsettled
  obtain ⟨body, hbody, hinner⟩ := writes_eq s.queue t
  refine ⟨s.made.length, t, ⟨?_, ?_, hconsumed, ?_, ⟨h1, h2, h3, h4, h5, h6⟩, ⟨body, hbody, hinner⟩,
    ?_⟩, hext.works ⟨hfirst, hearlier, hfits⟩⟩
  · simp [follow]
  · simp [follow]
  · exact congrArg bump hindex
  · have hholds := holds_writes s.mem s.queue t
    rw [hindex] at hholds
    exact ⟨hholds.head, hholds.chain⟩

theorem Inv.follow (h : s.Inv) (hsettled : s.Settled) {good : Prop} {next : Next}
    (hserves : Serves s.queue r good next) (hfirst : first ≤ s.made.length)
    (hearlier : ∀ i, first ≤ i → i < s.made.length → s.Completed i 0) (hgood : good → ForDevice r →
      first < s.made.length ∧ s.made[s.made.length - 1]? = some (asks s.queue r)) :
    (s.follow r first next).Inv := by
  rcases hserves with ⟨faults, reply, rfl, hok⟩ | ⟨faults, stage, t, rfl, hfits⟩ | rfl
  · refine h.reply (.inl hsettled) ?_
    intro hstatus hfor
    obtain ⟨hlt, hlast⟩ := hgood (hok hstatus) hfor
    exact ⟨hlt, hlast, hearlier⟩
  · exact h.issue hsettled hfits hfirst hearlier
  · exact h.move (.inl hsettled.frame)

theorem Inv.giveUp (h : s.Inv) (hidle : s.Settled ∨ ∃ k t, s.Current k t) :
    (s.conclude job false).Inv := by
  obtain ⟨reply, hreply, hne⟩ := resume_false s.faults job.request job.stage
  unfold conclude
  rw [hreply]
  exact h.reply hidle fun hok => absurd hok hne

theorem Inv.receive (h : s.Inv) (hpc : s.pc = .idle) (hdrained : s.Drained (.receive r)) :
    (s.follow r s.made.length (serve s.queue s.faults r)).Inv := by
  have hserves := serves s.queue s.faults r
  have hphase := h.phase
  unfold Phase at hphase
  rw [hpc] at hphase
  rcases hphase with hsettled | ⟨k, t, hcurrent⟩
  · refine h.follow hsettled hserves (Nat.le_refl _) ?_ fun hnot hfor => absurd hfor hnot
    intro i hlow hhigh
    omega
  · -- a transfer was given up on, so this request comes to none
    rcases hserves with ⟨faults, reply, hreply, hok⟩ | ⟨faults, stage, t', hissue, -⟩ | hoverflow
    · rw [hreply]
      exact h.reply (.inr ⟨k, t, hcurrent⟩) fun hstatus hfor => absurd hfor (hok hstatus)
    · have hindex := hdrained ⟨faults, stage, t', hissue⟩
      rw [hcurrent.index] at hindex
      exact absurd hindex (bump_ne _)
    · rw [hoverflow]
      exact h.move (.inr ⟨k, t, hcurrent.frame⟩)

theorem Inv.write (h : s.Inv) {w : Write} (hpc : s.pc = .publishing (w :: rest) job) :
    State.Inv { s with
      mem := s.mem.write w
      pc := if rest = [] then .polling 0 job else .publishing rest job } := by
  have hphase := h.phase
  unfold Phase at hphase
  rw [hpc] at hphase
  obtain ⟨k, t, ⟨hlength, hlatest, hconsumed, hindex, ⟨h1, h2, h3, h4, h5, h6⟩, ⟨body, hbody, hinner⟩,
    hholds⟩, hworks⟩ := hphase
  have hext : Extends s { s with
      mem := s.mem.write w
      pc := if rest = [] then .polling 0 job else .publishing rest job } := .of_eq rfl rfl rfl rfl
  refine h.update hext rfl rfl rfl (fun a ha => .inl ha) ?_
  have hused := (write_used s.mem w).1.trans h6
  cases body with
  | nil =>
    obtain ⟨rfl, rfl⟩ := cons.inj hbody
    refine ⟨k, t, ⟨hlength, hlatest, hconsumed, hindex, hindex, ?_⟩, hext.works hworks⟩
    exact .published h1 h3 hholds h4 h5 hused
  | cons v body =>
    obtain ⟨rfl, hrest⟩ := cons.inj hbody
    have hmore : rest ≠ [] := by
      rw [hrest]
      simp
    have havail := write_avail (m := s.mem) (hinner w mem_cons_self)
    rw [if_neg hmore] at hext ⊢
    refine ⟨k, t, ⟨hlength, hlatest, hconsumed, hindex, ⟨h1, havail.trans h2, h3, h4, h5, hused⟩,
      ⟨body, hrest, fun v hv => hinner v (mem_cons_of_mem _ hv)⟩, hholds⟩, hext.works hworks⟩

/-- **The completion that is consumed is that of the transfer that is waited for.** -/
theorem Inv.consume (h : s.Inv) {rounds : Nat} (hpc : s.pc = .entry rounds job) :
    (s.consume rounds job).Inv := by
  have hphase := h.phase
  unfold Phase at hphase
  rw [hpc] at hphase
  obtain ⟨k, t, hcurrent, hworks, hnew⟩ := hphase
  unfold State.consume
  simp only
  split
  · exact h.move ⟨k, t, hcurrent.frame, hworks.frame⟩
  · obtain ⟨hlength, hlatest, hconsumed, hindex, havailable, hstanding⟩ := hcurrent
    cases hstanding with
    | published _ _ _ _ _ hused => exact absurd hused hnew
    | taken _ _ _ _ hused => exact absurd hused hnew
    | finished _ _ _ _ _ hused => exact absurd hused hnew
    | posted len hinflight hlast htakes hposted hmine hused hentry hcompleted =>
      have hext : Extends s { s with
          queue := { s.queue with usedIndex := bump s.queue.usedIndex }
          pc := .status job
          consumed := s.consumed
            ++ [(s.made.length - 1, s.device.posted[s.consumed.length]?)] } :=
        .of_eq rfl rfl rfl rfl
      refine ⟨h.size, bump_lt _, fun a ha => hext.honest (h.answers a ha), ?_, ?_⟩
      · intro p hp
        rcases mem_append.mp hp with hp | hp
        · exact h.matched p hp
        · rw [mem_singleton.mp hp, hlength, hconsumed]
          exact hmine
      · refine ⟨⟨?_, ?_, hindex⟩, k, t, hlength, hlatest, hext.works hworks, hcompleted⟩
        · rw [hlength]
          exact ⟨hinflight, havailable, hlast, htakes, hposted, hused⟩
        · simp [hconsumed, hlength]

theorem Inv.status (h : s.Inv) (hpc : s.pc = .status job) :
    (s.conclude job (decide (s.mem.status = 0))).Inv := by
  have hphase := h.phase
  unfold Phase at hphase
  rw [hpc] at hphase
  obtain ⟨hsettled, k, t, hlength, hlatest, hworks, hcompleted⟩ := hphase
  by_cases hzero : s.mem.status = 0
  · rw [decide_eq_true hzero]
    have hfirst := hworks.first
    refine h.follow hsettled (serves_resume hworks.fits) (by omega) ?_ ?_
    · intro i hlow hhigh
      rcases Nat.lt_or_ge i k with hlt | hge
      · exact hworks.earlier i hlow hlt
      · obtain rfl : i = k := by omega
        exact ⟨t, hlatest, hzero ▸ hcompleted⟩
    · intro heq _
      refine ⟨by omega, ?_⟩
      rw [hlength, Nat.add_sub_cancel, hlatest, heq]
  · rw [decide_eq_false hzero]
    exact h.giveUp (.inl hsettled)

theorem Inv.drive (h : s.Inv) (hstep : s.drive = some s') : s'.Inv := by
  have hphase := h.phase
  unfold Phase at hphase
  unfold State.drive at hstep
  split at hstep
  · rename_i w rest job hpc
    cases hstep
    exact h.write hpc
  · rename_i rounds job hpc
    rw [hpc] at hphase
    obtain ⟨k, t, hcurrent, hworks⟩ := hphase
    simp only at hstep
    split at hstep
    · cases hstep
      exact h.move ⟨k, t, hcurrent.frame, hworks.frame⟩
    · rename_i hsome
      cases hstep
      refine h.move ⟨k, t, hcurrent.frame, hworks.frame, ?_⟩
      intro heq
      have heq : s.mem.rings.usedIndex = s.queue.usedIndex := heq
      rw [heq, distance_self] at hsome
      exact hsome (.inl rfl)
  · rename_i rounds job hpc
    cases hstep
    exact h.consume hpc
  · rename_i job hpc
    cases hstep
    exact h.status hpc
  · cases hstep

theorem Inv.signal (h : s.Inv) {ok : Bool} (hstep : s.signal ok = some s') : s'.Inv := by
  have hphase := h.phase
  unfold Phase at hphase
  unfold State.signal at hstep
  split at hstep
  · rename_i rounds job hpc
    rw [hpc] at hphase
    obtain ⟨k, t, hcurrent, hworks⟩ := hphase
    split at hstep
    · cases hstep
      exact h.move ⟨k, t, hcurrent.frame, hworks.frame⟩
    · cases hstep
      exact h.giveUp (.inr ⟨k, t, hcurrent⟩)
  · cases hstep

theorem Current.device (h : s.Current k t) (he : OfDevice e)
    (hstep : s.step e = some s') : s'.Current k t ∧ Extends s s' ∧ s'.pc = s.pc := by
  obtain ⟨hstanding, havailable, heq, hcompleted⟩ := h.standing.device h.available he hstep
  refine ⟨?_, ⟨?_, ?_, ?_, hcompleted⟩, ?_⟩
  · refine ⟨?_, ?_, ?_, ?_, ?_, hstanding⟩
    · rw [heq]
      exact h.length
    · rw [heq]
      exact h.latest
    · rw [heq]
      exact h.consumed
    · rw [heq]
      exact h.index
    · rw [havailable, h.available, heq]
  · intro i u hi
    rw [heq]
    exact hi
  · rw [heq]
  · rw [heq]
  · rw [heq]

theorem Inv.device (h : s.Inv) (he : OfDevice e) (hstep : s.step e = some s') : s'.Inv := by
  have hphase := h.phase
  have hidle : s.device.Busy s.mem.rings := by
    by_contra hnot
    rw [device_idle hnot he] at hstep
    cases hstep
  have hcarry : ∀ k t, s.Current k t → s'.Phase → s'.Inv := by
    intro k t hcurrent hphase'
    obtain ⟨hstanding, havailable, heq, hcompleted⟩ :=
      hcurrent.standing.device hcurrent.available he hstep
    obtain ⟨-, hext, -⟩ := hcurrent.device he hstep
    refine h.update hext ?_ ?_ ?_ ?_ hphase' <;> rw [heq]
    exact fun a ha => .inl ha
  unfold Phase at hphase hcarry
  cases hpc : s.pc with
  | idle =>
    rw [hpc] at hphase
    rcases hphase with hsettled | ⟨k, t, hcurrent⟩
    · exact absurd hidle hsettled.quiet.not_busy
    · obtain ⟨hcurrent', -, hpc'⟩ := hcurrent.device he hstep
      apply hcarry k t hcurrent
      rw [hpc', hpc]
      exact .inr ⟨k, t, hcurrent'⟩
  | overflowed =>
    rw [hpc] at hphase
    rcases hphase with hsettled | ⟨k, t, hcurrent⟩
    · exact absurd hidle hsettled.quiet.not_busy
    · obtain ⟨hcurrent', -, hpc'⟩ := hcurrent.device he hstep
      apply hcarry k t hcurrent
      rw [hpc', hpc]
      exact .inr ⟨k, t, hcurrent'⟩
  | publishing rest job =>
    rw [hpc] at hphase
    obtain ⟨k, t, hpublishes, -⟩ := hphase
    exact absurd hidle hpublishes.quiet.not_busy
  | polling rounds job =>
    rw [hpc] at hphase
    obtain ⟨k, t, hcurrent, hworks⟩ := hphase
    obtain ⟨hcurrent', hext, hpc'⟩ := hcurrent.device he hstep
    apply hcarry k t hcurrent
    rw [hpc', hpc]
    exact ⟨k, t, hcurrent', hext.works hworks⟩
  | waiting rounds job =>
    rw [hpc] at hphase
    obtain ⟨k, t, hcurrent, hworks⟩ := hphase
    obtain ⟨hcurrent', hext, hpc'⟩ := hcurrent.device he hstep
    apply hcarry k t hcurrent
    rw [hpc', hpc]
    exact ⟨k, t, hcurrent', hext.works hworks⟩
  | entry rounds job =>
    rw [hpc] at hphase
    obtain ⟨k, t, hcurrent, -, hnew⟩ := hphase
    cases hcurrent.standing with
    | published _ _ _ _ _ hused => exact absurd hused hnew
    | taken _ _ _ _ hused => exact absurd hused hnew
    | finished _ _ _ _ _ hused => exact absurd hused hnew
    | posted len hinflight hlast =>
      rcases hidle with hbusy | hbusy
      · exact absurd hinflight hbusy
      · exact absurd (hcurrent.available.trans hlast.symm) hbusy
  | status job =>
    rw [hpc] at hphase
    exact absurd hidle hphase.1.quiet.not_busy

/-- **Every step keeps what holds of a drained run.** -/
theorem Inv.step (h : s.Inv) (hdrained : s.Drained e) (hstep : s.step e = some s') : s'.Inv := by
  cases e with
  | receive request =>
    rw [State.step] at hstep
    split at hstep
    · rename_i hpc
      cases hstep
      exact h.receive hpc hdrained
    · cases hstep
  | drive => exact h.drive hstep
  | signal ok => exact h.signal hstep
  | take => exact h.device (e := .take) trivial hstep
  | finish i status => exact h.device (e := .finish i status) trivial hstep
  | post i len => exact h.device (e := .post i len) trivial hstep

theorem inv_initial (h : s.Initial) : s.Inv := by
  obtain ⟨⟨hsize, -⟩, ⟨havail, hused⟩, -, hpc, ⟨hravail, hrused⟩, hdevice, hmade, hconsumed,
    hanswered⟩ := h
  refine ⟨hsize, ?_, ?_, ?_, ?_⟩
  · rw [hused]
    decide
  · rw [hanswered]
    exact fun a ha => absurd ha not_mem_nil
  · rw [hconsumed]
    exact fun p hp => absurd hp not_mem_nil
  · unfold Phase
    rw [hpc]
    refine .inl ⟨⟨?_, ?_, ?_, ?_, ?_, ?_⟩, ?_, havail.trans hused.symm⟩
    · rw [hdevice]
      rfl
    · rw [hravail, hused]
    · rw [hdevice, hused]
      rfl
    · rw [hdevice, hmade]
      rfl
    · rw [hdevice, hmade]
      rfl
    · rw [hrused, hused]
    · rw [hconsumed, hmade]
      rfl

theorem inv_of_reachable (h : drained.Reachable s) : s.Inv := by
  apply h.invariant (I := Inv)
  · intro s hs
    exact inv_initial hs
  · intro s e s' hinv ⟨hdrained, hstep⟩
    exact hinv.step hdrained hstep

theorem Inv.sincere (h : s.Inv) : s.Sincere := by
  refine ⟨h.answers, h.matched, ?_⟩
  intro rest job hpc
  have hphase := h.phase
  unfold Phase at hphase
  rw [hpc] at hphase
  obtain ⟨k, t, hpublishes, -⟩ := hphase
  exact hpublishes.quiet.not_busy

/-! ### After a transfer was given up on -/

theorem foldl_used (m : Memory) (rest : List Write) :
    (rest.foldl Memory.write m).rings.usedIndex = m.rings.usedIndex
      ∧ (rest.foldl Memory.write m).rings.used = m.rings.used := by
  induction rest generalizing m with
  | nil => exact ⟨rfl, rfl⟩
  | cons w rest ih =>
    obtain ⟨hindex, hused⟩ := write_used m w
    exact ⟨(ih (m.write w)).1.trans hindex, (ih (m.write w)).2.trans hused⟩

theorem foldl_avail (m : Memory) (q : Queue) (t : Transfer) :
    ((writes q t).foldl Memory.write m).rings.availIndex = bump q.availIndex := by
  obtain ⟨body, hbody, -⟩ := writes_eq q t
  rw [hbody, foldl_append]
  rfl

theorem runs_writes {start : State} (hruns : system.Runs start s) (hrest : rest ≠ [])
    (hpc : s.pc = .publishing rest job) :
    system.Runs start { s with mem := rest.foldl Memory.write s.mem, pc := .polling 0 job } := by
  induction rest generalizing s with
  | nil => exact absurd rfl hrest
  | cons w rest ih =>
    have hstep : s.step .drive = some { s with
        mem := s.mem.write w
        pc := if rest = [] then .polling 0 job else .publishing rest job } := by
      rw [step, drive, hpc]
    by_cases hlast : rest = []
    · rw [if_pos hlast] at hstep
      subst hlast
      exact hruns.step hstep
    · rw [if_neg hlast] at hstep
      exact ih (hruns.step hstep) hlast rfl

/-- A request that always leads to a transfer. -/
def probe : DiskRequest := ⟨opRead, faultNone, 0, 1, 0⟩

theorem serve_probe (q : Queue) (f : Faults) :
    serve q f probe = .issue f .read ⟨blkIn, 0, probe.data q, probe.bytes⟩ := by
  simp [serve, probe, DiskRequest.bounded, transfer]

theorem receive_issue (hpc : s.pc = .idle)
    (hserve : serve s.queue s.faults r = .issue faults stage t) :
    s.step (.receive r) = some (s.follow r s.made.length (.issue faults stage t)) := by
  rw [step, if_pos hpc, hserve]

theorem not_sincere_of_busy (hbusy : s.device.Busy s.mem.rings) :
    ¬ (s.follow r first (.issue faults stage t)).Sincere := by
  intro hsincere
  exact hsincere.untouched _ _ rfl hbusy

/-- Where the next entry of the used ring is not that of the transfer that is waited for, and the
device has a transfer besides, that entry is consumed, or another transfer is written over. -/
theorem spoils_polling {start : State} {rounds len : Nat} (hruns : system.Runs start s)
    (hpc : s.pc = .polling rounds job) (hsize : 0 < s.queue.size)
    (hlt : s.queue.usedIndex < indexRange) (hused : s.mem.rings.usedIndex = bump s.queue.usedIndex)
    (hentry : s.mem.rings.used (s.queue.usedIndex % s.queue.size) = ⟨0, len⟩)
    (hstale : s.device.posted[s.consumed.length]? ≠ some (s.made.length - 1))
    (hbusy : s.device.Busy s.mem.rings) : ∃ s', system.Runs start s' ∧ ¬ s'.Sincere := by
  have hpoll : s.step .drive = some { s with pc := .entry rounds job } := by
    rw [step, drive, hpc]
    simp only [hused, distance_bump hlt]
    rw [if_neg (by omega)]
  have hlook : State.step { s with pc := .entry rounds job } .drive
      = some (State.consume { s with pc := .entry rounds job } rounds job) := rfl
  have hconsume := (hruns.step hpoll).step hlook
  unfold State.consume at hconsume
  simp only [hentry] at hconsume
  by_cases hlong : s.queue.published < len
  · -- it is refused, this transfer is given up on too, and another one is begun
    rw [if_pos (.inr hlong)] at hconsume
    obtain ⟨reply, hreply, -⟩ := resume_false s.faults job.request job.stage
    have hsignal : State.step { s with pc := .waiting rounds job } (.signal false)
        = some (State.follow { s with pc := .waiting rounds job } job.request job.first
          (.reply s.faults reply)) := by
      rw [← hreply]
      rfl
    generalize hnext : State.follow { s with pc := .waiting rounds job } job.request job.first
      (.reply s.faults reply) = next at hsignal
    have hbusy' : next.device.Busy next.mem.rings := hnext ▸ hbusy
    exact ⟨_, (hconsume.step hsignal).step (receive_issue (hnext ▸ rfl) (serve_probe _ _)),
      not_sincere_of_busy hbusy'⟩
  · rw [if_neg (by simp [hlong])] at hconsume
    refine ⟨_, hconsume, ?_⟩
    intro hsincere
    exact hstale (hsincere.matched _ (mem_append_right _ (mem_singleton_self _)))

/-- **A transfer that is begun after one that was given up on** is written over it, or takes its
completion, or is written over in its turn. -/
theorem Current.spoils (h : s.Current k t) (hsize : 0 < s.queue.size)
    (hlt : s.queue.usedIndex < indexRange) {u : Transfer} :
    ∃ s', system.Runs (s.follow r first (.issue faults stage u)) s' ∧ ¬ s'.Sincere := by
  by_cases hbusy : s.device.Busy s.mem.rings
  · exact ⟨_, .refl _, not_sincere_of_busy hbusy⟩
  obtain ⟨hlength, hlatest, hconsumed, hindex, havailable, hstanding⟩ := h
  obtain ⟨hidle, hnone⟩ := not_or.mp hbusy
  cases hstanding with
  | published _ hlast =>
    rw [havailable, hlast] at hnone
    exact absurd hnone (not_not_intro (bump_ne _))
  | taken hinflight =>
    rw [hinflight] at hidle
    exact absurd (cons_ne_nil _ _) hidle
  | finished _ hinflight =>
    rw [hinflight] at hidle
    exact absurd (cons_ne_nil _ _) hidle
  | posted len _ hlast _ _ hmine hused hentry =>
    -- the completion is in the used ring when the next transfer is begun
    obtain ⟨hfoldIndex, hfoldUsed⟩ := foldl_used s.mem (writes s.queue u)
    have hruns := runs_writes (.refl (s.follow r first (.issue faults stage u)))
      (by simp [writes]) rfl
    have hsame : ((writes s.queue u).foldl Memory.write s.mem).rings.used
        (s.queue.usedIndex % s.queue.size) = ⟨0, len⟩ := by
      rw [hfoldUsed]
      exact hentry
    refine spoils_polling hruns rfl hsize hlt (hfoldIndex.trans hused) hsame ?_ ?_
    · show s.device.posted[s.consumed.length]? ≠ some ((s.made ++ [u]).length - 1)
      rw [hconsumed, hmine]
      simp [hlength]
    · right
      show ((writes s.queue u).foldl Memory.write s.mem).rings.availIndex ≠ s.device.lastAvail
      rw [foldl_avail, hindex, hlast]
      exact bump_ne _

/-! ### The answers -/

/-- **An answer of the driver is about its request**: in every run in which a transfer is begun only
when the completions of all before it have been consumed, whatever the order and the timing of the
device and whatever `signal_wait` answers, `OK` is answered after the device has completed what the
request asks for, each completion is taken for that of its own transfer, and nothing the device may
still use is written over.  And a request that begins a transfer otherwise can go wrong: the run
goes on to a state where one of these fails. -/
theorem answers_sincere {s : State} (h : drained.Reachable s) :
    s.Sincere ∧ ∀ r, s.pc = .idle → ¬ s.Drained (.receive r) →
      ∃ s₁ s₂, s.step (.receive r) = some s₁ ∧ system.Runs s₁ s₂ ∧ ¬ s₂.Sincere := by
  have hinv := inv_of_reachable h
  refine ⟨hinv.sincere, ?_⟩
  intro r hpc hnot
  obtain ⟨⟨faults, stage, t, hserve⟩, hindex⟩ := Classical.not_imp.mp hnot
  have hphase := hinv.phase
  unfold Phase at hphase
  rw [hpc] at hphase
  rcases hphase with hsettled | ⟨k, u, hcurrent⟩
  · exact absurd hsettled.index hindex
  · obtain ⟨s₂, hruns, hspoilt⟩ := hcurrent.spoils hinv.size hinv.index
    exact ⟨_, s₂, receive_issue hpc hserve, hruns, hspoilt⟩

/-- The driver as it starts, with the ring and the buffer at these addresses. -/
def start : State where
  queue := ⟨0x10000, 0x20000, 8, 0, 0, 0⟩
  faults := ⟨false, none, 0, 0, 0, 0⟩
  pc := .idle
  mem := {
    rings := {
      desc := fun _ => ⟨0, 0, 0, 0⟩
      availIndex := 0
      avail := fun _ => 0
      usedIndex := 0
      used := fun _ => ⟨0, 0⟩ }
    header := ⟨0, 0, 0⟩
    status := 0 }
  device := DeviceSide.fresh
  made := []
  consumed := []
  answered := []

theorem initial_start : start.Initial :=
  ⟨by decide, ⟨rfl, rfl⟩, rfl, rfl, ⟨rfl, rfl⟩, rfl, ⟨rfl, rfl, rfl⟩⟩

/-- A request is received, and what it asks for is published by `turns` writes. -/
def asked (r : DiskRequest) (turns : Nat) : List Event :=
  .receive r :: List.replicate turns .drive

/-- The device takes what was published, completes it well, and the driver finds it done. -/
def completion (len : Nat) : List Event :=
  [.take, .finish 0 0, .post 0 len, .drive, .drive, .drive]

/-- The condition as it can be tested: nothing is received before all is consumed. -/
def Caught (s : State) : Event → Prop
  | .receive _ => s.queue.availIndex = s.queue.usedIndex
  | _ => True

instance (s : State) : (e : Event) → Decidable (s.Caught e)
  | .receive _ => inferInstanceAs (Decidable (_ = _))
  | .drive | .signal _ | .take | .finish _ _ | .post _ _ => inferInstanceAs (Decidable True)

/-- A write that is held, and the flush that lets it go: both transfers are completed before the
flush is answered. -/
theorem answers_sincere_sample :
    ∃ s, System.exec (System.guarded Caught step)
        (.receive ⟨opWrite, faultReorder, 5, 1, 0⟩ :: asked ⟨opFlush, faultNone, 0, 0, 0⟩ 9
          ++ completion 1 ++ List.replicate 8 .drive ++ completion 1) start = some s
      ∧ s.answered.map (fun a => (a.reply.status, a.first, a.last))
        = [(statusOk, 0, 0), (statusOk, 0, 2)]
      ∧ s.Sincere := by
  have hrun : (System.exec (System.guarded Caught step)
      (.receive ⟨opWrite, faultReorder, 5, 1, 0⟩ :: asked ⟨opFlush, faultNone, 0, 0, 0⟩ 9
        ++ completion 1 ++ List.replicate 8 .drive ++ completion 1) start).map
      (fun s => s.answered.map fun a => (a.reply.status, a.first, a.last))
      = some [(statusOk, 0, 0), (statusOk, 0, 2)] := by
    decide +kernel
  obtain ⟨s, hs, hanswered⟩ := map_eq_some_iff.mp hrun
  have hreachable : drained.Reachable s :=
    System.reachable_within_of_tested (.init initial_start) (by
      intro e _ t hcaught
      cases e with
      | receive r => exact fun _ => hcaught
      | _ => trivial) hs
  exact ⟨s, hs, hanswered, (answers_sincere hreachable).1⟩

/-- A read is given up on and answered with an error; then a write is published, the read's
completion arrives, and the write is answered `OK`.  The device has never seen the write. -/
theorem late_completion_taken :
    ∃ s, system.Reachable s ∧ ¬ s.Sincere
      ∧ s.answered.map (fun a => (a.request.op, a.reply.status))
        = [(opRead, statusIoError), (opWrite, statusOk)]
      ∧ s.consumed = [(1, some 0)]
      ∧ s.device.completed.map (fun c => (c.1, c.2.1.kind, c.2.2)) = [(0, blkIn, 0)] := by
  have hrun : (System.exec step
      (asked ⟨opRead, faultNone, 1, 1, 0⟩ 10 ++ [.take, .signal false]
        ++ asked ⟨opWrite, faultNone, 2, 1, 0⟩ 9
        ++ [.finish 0 0, .post 0 4097, .drive, .drive, .drive]) start).map
      (fun s => (s.answered.map fun a => (a.request.op, a.reply.status), s.consumed,
        s.device.completed.map fun c => (c.1, c.2.1.kind, c.2.2)))
      = some ([(opRead, statusIoError), (opWrite, statusOk)], [(1, some 0)], [(0, blkIn, 0)]) := by
    decide +kernel
  obtain ⟨s, hs, hfacts⟩ := map_eq_some_iff.mp hrun
  simp only [Prod.mk.injEq] at hfacts
  obtain ⟨hanswered, hconsumed, hcompleted⟩ := hfacts
  refine ⟨s, System.reachable_of_exec (.init initial_start) hs, ?_, hanswered, hconsumed,
    hcompleted⟩
  intro hsincere
  have hpair := hsincere.matched (1, some 0) (hconsumed ▸ mem_singleton_self _)
  cases hpair

end State

end Thalyx.Disk
