import Ar7Qemu.Lib.Run
import Ar7Qemu.Virtio.Blk
import Ar7Qemu.Virtio.QueueSound

/-! Every request the device pops is pushed once or is still at work, and it is pushed with a
good status only for a good result, exactly as long as no step of a run meets one of four
conditions: a request without an acb, a failed read, a walk of the parked list in which a request
does not stay with the block layer, and a load while requests were waiting. -/

namespace Ar7Qemu.Virtio.Blk

open Lib

/-! ### The property and the condition -/

/-- A good status stands for success, or for a failed write where the drive ignores those. -/
def Honest (action : ErrorAction) (p : Push) : Prop :=
  p.status = .ok → p.ret = some 0 ∨ (p.req.isWrite = true ∧ action = .ignore ∧ p.ret.isSome)

/-- The requests that the device has pushed, given to the block layer or parked. -/
def Device.accounted (s : Device) : List Req := s.pushed.map Push.req ++ s.inflight ++ s.rq

/-- Every popped request is pushed, with the block layer or parked, once and in one place only;
the statuses are honest; and each restart has submitted what was parked, each request once. -/
structure Right (action : ErrorAction) (s : Device) : Prop where
  once : s.accounted.Perm s.popped
  honest : ∀ p ∈ s.pushed, Honest action p
  resubmitted : ∀ w ∈ s.walks, w.2 = w.1
  defined : s.freed = false

/-- The block layer takes the request, and a read does not fail at once. -/
def OfferSafe (o : Offer) : Prop :=
  o.req.isScsi = true ∨
    (o.answer ≠ .null ∧ ∀ ret, o.answer = .inline ret → o.req.isWrite = false → ret = 0)

section
variable (action : ErrorAction)

/-- The block layer takes every parked request for later, except that the last one may fail at
once with an error that parks it again. -/
def WalkSafe : List Req → (ℕ → Answer) → Prop
  | [], _ => True
  | r :: next, answer =>
    (answer 0 = .pending ∧ WalkSafe next fun n => answer (n + 1)) ∨
      (next = [] ∧ ∃ ret, answer 0 = .inline ret ∧ parks action r ret = true)

def EventSafe (s : Device) : Event → Prop
  | .kick os => ∀ o ∈ os, OfferSafe o
  | .complete n ret => ∀ r, s.inflight[n]? = some r → r.isWrite = false → ret = 0
  | .cont answer => s.running = false → WalkSafe action s.rq answer
  | .load n fresh => ∀ i, s.images[n]? = some i → (if fresh then [] else s.rq).Perm i.waiting
  | .stop | .save => True

/-! ### Requests in hand -/

/-- `Right` in the middle of a step, when the device has the requests `held` in hand. -/
structure Holding (held : List Req) (s : Device) : Prop where
  once : (held ++ s.accounted).Perm s.popped
  honest : ∀ p ∈ s.pushed, Honest action p
  resubmitted : ∀ w ∈ s.walks, w.2 = w.1
  defined : s.freed = false

variable {action} {s : Device} {r : Req} {ret : ℤ} {held : List Req}

theorem holding_nil : Holding action [] s ↔ Right action s :=
  ⟨fun h => ⟨h.once, h.honest, h.resubmitted, h.defined⟩, fun h => ⟨h.once, h.honest, h.resubmitted, h.defined⟩⟩

theorem Holding.length_eq (h : Holding action held s) : held.length + s.accounted.length = s.popped.length := by
  have hlen := h.once.length_eq
  rwa [List.length_append] at hlen

/-- The status that a report gives a request which it does not park. -/
def reportStatus (action : ErrorAction) (r : Req) (ret : ℤ) : Status :=
  if ret ≠ 0 ∧ r.isWrite = true ∧ action ≠ .ignore then .ioerr else .ok

def parked (s : Device) (r : Req) : Device := { s with rq := r :: s.rq, running := false }

theorem virtioBlkRwComplete_eq : virtioBlkRwComplete action s r ret =
    if parks action r ret then parked s r
    else virtioBlkReqComplete s r (reportStatus action r ret) (some ret) := by
  unfold virtioBlkRwComplete virtioBlkHandleWriteError parks reportStatus
  by_cases hret : ret = 0
  · simp [hret]
  · by_cases hw : r.isWrite = true
    · by_cases hi : action = .ignore
      · simp [hret, hw, hi, stops]
      · by_cases hs : stops action (-ret) = true
        · simp [hret, hw, hi, hs, parked]
        · simp [hret, hw, hi, hs]
    · simp [hret, hw]

theorem isWrite_of_parks (h : parks action r ret = true) : r.isWrite = true := by
  unfold parks at h
  simp only [Bool.and_eq_true] at h
  exact h.1.2

theorem honest_report {len : BitVec 32} : Honest action ⟨r, reportStatus action r ret, len, some ret⟩ ↔
    (r.isWrite = false → ret = 0) := by
  unfold Honest reportStatus
  by_cases hret : ret = 0
  · simp [hret]
  · cases hw : r.isWrite with
    | false => simp [hret]
    | true =>
      by_cases hi : action = .ignore
      · simp [hret, hi]
      · simp [hret, hi]

theorem accounted_parked (held : List Req) : (held ++ (parked s r).accounted).Perm (r :: held ++ s.accounted) := by
  unfold Device.accounted parked
  refine (List.Perm.append_left held (List.perm_middle)).trans ?_
  exact List.perm_middle

theorem accounted_pushed {p : Push} (held : List Req) :
    (held ++ { s with pushed := s.pushed ++ [p] }.accounted).Perm (p.req :: held ++ s.accounted) := by
  unfold Device.accounted
  rw [List.map_append, List.append_assoc, List.append_assoc, List.append_assoc]
  exact (List.Perm.append_left held List.perm_middle).trans List.perm_middle

theorem holding_pushed {p : Push} : Holding action held { s with pushed := s.pushed ++ [p] } ↔
    Holding action (p.req :: held) s ∧ Honest action p := by
  constructor
  · intro h
    refine ⟨⟨(accounted_pushed held).symm.trans h.once, fun q hq => ?_, h.resubmitted, h.defined⟩, ?_⟩
    · exact h.honest q (List.mem_append_left _ hq)
    · exact h.honest p (List.mem_append_right _ (List.mem_singleton_self p))
  · rintro ⟨h, hp⟩
    refine ⟨(accounted_pushed held).trans h.once, fun q hq => ?_, h.resubmitted, h.defined⟩
    rcases List.mem_append.1 hq with hq | hq
    · exact h.honest q hq
    · exact List.mem_singleton.1 hq ▸ hp

theorem holding_rwComplete : Holding action held (virtioBlkRwComplete action s r ret) ↔
    Holding action (r :: held) s ∧ (r.isWrite = false → ret = 0) := by
  rw [virtioBlkRwComplete_eq]
  split_ifs with hp
  · have hw : r.isWrite = true := isWrite_of_parks hp
    constructor
    · intro h
      exact ⟨⟨(accounted_parked held).symm.trans h.once, h.honest, h.resubmitted, h.defined⟩, by simp [hw]⟩
    · rintro ⟨h, -⟩
      exact ⟨(accounted_parked held).trans h.once, h.honest, h.resubmitted, h.defined⟩
  · unfold virtioBlkReqComplete
    rw [holding_pushed, honest_report]

theorem holding_pending : Holding action held (submit action s r .pending) ↔ Holding action (r :: held) s := by
  have hperm : (held ++ (submit action s r .pending).accounted).Perm (r :: held ++ s.accounted) := by
    have hmiddle : (held ++ s.pushed.map Push.req ++ s.inflight ++ r :: s.rq).Perm
        (r :: (held ++ s.pushed.map Push.req ++ s.inflight ++ s.rq)) := List.perm_middle
    show (held ++ (s.pushed.map Push.req ++ (s.inflight ++ [r]) ++ s.rq)).Perm
      (r :: held ++ (s.pushed.map Push.req ++ s.inflight ++ s.rq))
    simpa only [List.append_assoc, List.cons_append, List.nil_append] using hmiddle
  exact ⟨fun h => ⟨hperm.symm.trans h.once, h.honest, h.resubmitted, h.defined⟩,
    fun h => ⟨hperm.trans h.once, h.honest, h.resubmitted, h.defined⟩⟩

theorem submit_inline : submit action s r (.inline ret) = virtioBlkRwComplete action s r ret := rfl

theorem right_submit {answer : Answer} (hlt : s.accounted.length < s.popped.length) :
    Right action (submit action s r answer) ↔ Holding action [r] s ∧
      (answer ≠ .null ∧ ∀ ret, answer = .inline ret → r.isWrite = false → ret = 0) := by
  cases answer with
  | null =>
    -- Without an acb the request is nowhere: there are fewer of them than were popped.
    constructor
    · intro h
      have hlen : s.accounted.length = s.popped.length := h.once.length_eq
      omega
    · rintro ⟨-, h, -⟩
      exact absurd rfl h
  | pending => simp [← holding_nil, holding_pending]
  | inline ret => simp [← holding_nil, submit, holding_rwComplete]

theorem length_accounted_submit (answer : Answer) :
    (submit action s r answer).accounted.length ≤ s.accounted.length + 1 := by
  cases answer with
  | null => exact Nat.le_succ _
  | pending =>
    unfold Device.accounted submit
    simp only [List.length_append, List.length_map, List.length_singleton]
    omega
  | inline ret =>
    rw [submit_inline, virtioBlkRwComplete_eq]
    split_ifs
    · exact (accounted_parked []).length_eq.le
    · exact (accounted_pushed []).length_eq.le

@[simp] theorem submit_popped (answer : Answer) : (submit action s r answer).popped = s.popped := by
  cases answer with
  | null => rfl
  | pending => rfl
  | inline ret =>
    rw [submit_inline, virtioBlkRwComplete_eq]
    split_ifs <;> rfl

/-! ### Kicks -/

theorem holding_popped : Holding action [r] { s with popped := s.popped ++ [r] } ↔ Right action s := by
  have hcomm : ([r] ++ s.accounted).Perm (s.accounted ++ [r]) := List.perm_append_comm
  have hperm : ([r] ++ s.accounted).Perm (s.popped ++ [r]) ↔ s.accounted.Perm s.popped := by
    have hcancel : (s.accounted ++ [r]).Perm (s.popped ++ [r]) ↔ s.accounted.Perm s.popped :=
      List.perm_append_right_iff [r]
    exact ⟨fun h => hcancel.1 (hcomm.symm.trans h), fun h => hcomm.trans (hcancel.2 h)⟩
  exact ⟨fun h => ⟨hperm.1 h.once, h.honest, h.resubmitted, h.defined⟩,
    fun h => ⟨hperm.2 h.once, h.honest, h.resubmitted, h.defined⟩⟩

/-- A request popped and submitted, or refused, leaves the device right exactly when it was right
before and the block layer has taken the request. -/
theorem right_handleRequest {o : Offer} {t : Device} (hle : s.accounted.length ≤ s.popped.length)
    (h : handleRequest action s o = some t) :
    (Right action t ↔ Right action s ∧ OfferSafe o) ∧ t.accounted.length ≤ t.popped.length := by
  obtain ⟨s₁, hs₁⟩ : ∃ s₁ : Device, s₁ = { s with popped := s.popped ++ [o.req] } := ⟨_, rfl⟩
  have hlt : s₁.accounted.length < s₁.popped.length := by
    rw [hs₁]
    show s.accounted.length < (s.popped ++ [o.req]).length
    rw [List.length_append, List.length_singleton]
    omega
  have hheld : Holding action [o.req] s₁ ↔ Right action s := hs₁ ▸ holding_popped
  by_cases hheaders : o.headers = true
  · cases hscsi : o.req.isScsi with
    | true =>
      have ht : t = { s₁ with pushed := s₁.pushed ++ [⟨o.req, .unsupp, 1, none⟩] } := by
        simp only [handleRequest, hheaders, hscsi, if_true, Option.some.injEq] at h
        rw [← h, hs₁]
      rw [ht]
      constructor
      · rw [← holding_nil, holding_pushed, hheld]
        simp [OfferSafe, hscsi, Honest]
      · exact (accounted_pushed []).length_eq.trans_le hlt
    | false =>
      have ht : t = submit action s₁ o.req o.answer := by
        simp only [handleRequest, hheaders, hscsi, virtioBlkHandleWrite, virtioBlkHandleRead, if_true,
          Bool.false_eq_true, if_false, ite_self, Option.some.injEq] at h
        rw [← h, hs₁]
      rw [ht]
      constructor
      · rw [right_submit hlt, hheld]
        simp [OfferSafe, hscsi]
      · rw [submit_popped]
        have hlen : (submit action s₁ o.req o.answer).accounted.length ≤ s₁.accounted.length + 1 :=
          length_accounted_submit o.answer
        omega
  · simp [handleRequest, hheaders] at h

theorem right_virtioBlkHandleOutput : ∀ {os : List Offer} {s t : Device},
    s.accounted.length ≤ s.popped.length → virtioBlkHandleOutput action s os = some t →
      (Right action t ↔ Right action s ∧ ∀ o ∈ os, OfferSafe o)
  | [], s, t, _, h => by
    cases h
    simp
  | o :: os, s, t, hle, h => by
    obtain ⟨s₁, h₁, h⟩ := Option.bind_eq_some_iff.1 h
    obtain ⟨hfirst, hle₁⟩ := right_handleRequest hle h₁
    rw [right_virtioBlkHandleOutput hle₁ h, hfirst, List.forall_mem_cons, and_assoc]

/-! ### Restarts -/

section
variable {fuel : ℕ} {answer : ℕ → Answer} {next : List Req}

theorem restartLoop_next (h : ∀ ret, answer 0 ≠ .inline ret) : restartLoop action (fuel + 1) answer s (r :: next) =
    ((restartLoop action fuel (fun n => answer (n + 1)) (submit action s r (answer 0)) next).1,
      r :: (restartLoop action fuel (fun n => answer (n + 1)) (submit action s r (answer 0)) next).2) := by
  cases hanswer : answer 0 with
  | inline ret => exact absurd hanswer (h ret)
  | null => simp only [restartLoop, virtioBlkHandleWrite, nextAfter, hanswer]
  | pending => simp only [restartLoop, virtioBlkHandleWrite, nextAfter, hanswer]

theorem restartLoop_parks (hrq : s.rq = []) (hanswer : answer 0 = .inline ret) (hp : parks action r ret = true) :
    restartLoop action (fuel + 1) answer s (r :: next) = (submit action s r (answer 0), [r]) := by
  have hend : ∀ answer' t, restartLoop action fuel answer' t [] = (t, []) := by
    cases fuel <;> exact fun _ _ => rfl
  simp only [restartLoop, virtioBlkHandleWrite, nextAfter, hanswer, hp, if_true, hrq, hend]

theorem restartLoop_freed (hanswer : answer 0 = .inline ret) (hp : parks action r ret = false) :
    (restartLoop action (fuel + 1) answer s (r :: next)).1.freed = true := by
  simp only [restartLoop, nextAfter, hanswer, hp, Bool.false_eq_true, if_false]

end

theorem submit_rq_of_ne_inline {answer : Answer} (h : ∀ ret, answer ≠ .inline ret) :
    (submit action s r answer).rq = s.rq := by
  cases answer with
  | inline ret => exact absurd rfl (h ret)
  | null => rfl
  | pending => rfl

@[simp] theorem submit_images (answer : Answer) : (submit action s r answer).images = s.images := by
  cases answer with
  | null => rfl
  | pending => rfl
  | inline ret =>
    rw [submit_inline, virtioBlkRwComplete_eq]
    split_ifs <;> rfl

/-- The walk gives the block layer, the guest or the list at most the requests it was given. -/
theorem length_accounted_restartLoop : ∀ (fuel : ℕ) (answer : ℕ → Answer) (s : Device) (waiting : List Req),
    s.rq = [] → (restartLoop action fuel answer s waiting).1.freed = false →
    (restartLoop action fuel answer s waiting).1.accounted.length ≤ s.accounted.length + waiting.length ∧
      (restartLoop action fuel answer s waiting).1.popped = s.popped
  | 0, _, _, _, _, _ => ⟨Nat.le_add_right _ _, rfl⟩
  | _ + 1, _, _, [], _, _ => ⟨Nat.le_refl _, rfl⟩
  | fuel + 1, answer, s, r :: next, hrq, hfreed => by
    have hlen : (submit action s r (answer 0)).accounted.length ≤ s.accounted.length + 1 :=
      length_accounted_submit (answer 0)
    rw [List.length_cons]
    by_cases hin : ∃ ret, answer 0 = .inline ret
    · obtain ⟨ret, hanswer⟩ := hin
      cases hp : parks action r ret with
      | true =>
        rw [restartLoop_parks hrq hanswer hp]
        exact ⟨hlen.trans (by omega), submit_popped _⟩
      | false =>
        rw [restartLoop_freed hanswer hp] at hfreed
        exact absurd hfreed (by decide)
    · have hne : ∀ ret, answer 0 ≠ .inline ret := fun ret h => hin ⟨ret, h⟩
      rw [restartLoop_next hne] at hfreed ⊢
      have hrest := length_accounted_restartLoop fuel (fun n => answer (n + 1)) (submit action s r (answer 0)) next
        ((submit_rq_of_ne_inline hne).trans hrq) hfreed
      exact ⟨hrest.1.trans (by omega), hrest.2.trans (submit_popped _)⟩

/-- The walk submits every parked request and leaves the device right exactly when the block
layer takes them all for later, the last apart. -/
theorem right_restartLoop : ∀ (fuel : ℕ) (answer : ℕ → Answer) (s : Device) (waiting : List Req),
    s.rq = [] → waiting.length ≤ fuel → Holding action waiting s →
    (WalkSafe action waiting answer → Right action (restartLoop action fuel answer s waiting).1 ∧
      (restartLoop action fuel answer s waiting).2 = waiting) ∧
    (Right action (restartLoop action fuel answer s waiting).1 → WalkSafe action waiting answer)
  | 0, _, _, [], _, _, hs => ⟨fun _ => ⟨holding_nil.1 hs, rfl⟩, fun _ => trivial⟩
  | 0, _, _, _ :: _, _, hfuel, _ => absurd hfuel (by simp)
  | _ + 1, _, _, [], _, _, hs => ⟨fun _ => ⟨holding_nil.1 hs, rfl⟩, fun _ => trivial⟩
  | fuel + 1, answer, s, r :: next, hrq, hfuel, hs => by
    have hfuel' : next.length ≤ fuel := Nat.le_of_succ_le_succ hfuel
    have hcount := hs.length_eq
    rw [List.length_cons] at hcount
    cases hanswer : answer 0 with
    | null =>
      have hne : ∀ ret, answer 0 ≠ .inline ret := by simp [hanswer]
      refine ⟨fun hsafe => ?_, fun hright => ?_⟩
      · simp [WalkSafe, hanswer] at hsafe
      · -- One request fewer than was popped is left, and the rest of the walk adds none.
        rw [restartLoop_next hne] at hright
        have hrest := length_accounted_restartLoop fuel (fun n => answer (n + 1)) (submit action s r (answer 0)) next
          ((submit_rq_of_ne_inline hne).trans hrq) hright.defined
        have hlen := hright.once.length_eq
        dsimp only at hlen
        rw [hrest.2, submit_popped] at hlen
        have hsame : (submit action s r (answer 0)).accounted = s.accounted := by rw [hanswer]; rfl
        rw [hsame] at hrest
        omega
    | pending =>
      have hne : ∀ ret, answer 0 ≠ .inline ret := by simp [hanswer]
      have hheld : Holding action next (submit action s r (answer 0)) := by
        rw [hanswer]
        exact holding_pending.2 hs
      have hrest := right_restartLoop fuel (fun n => answer (n + 1)) (submit action s r (answer 0)) next
        ((submit_rq_of_ne_inline hne).trans hrq) hfuel' hheld
      rw [restartLoop_next hne]
      refine ⟨fun hsafe => ?_, fun hright => Or.inl ⟨hanswer, hrest.2 hright⟩⟩
      rcases hsafe with ⟨-, hsafe⟩ | ⟨-, ret, hret, -⟩
      · exact ⟨(hrest.1 hsafe).1, congrArg _ (hrest.1 hsafe).2⟩
      · exact absurd hret (hne ret)
    | inline ret =>
      cases hp : parks action r ret with
      | true =>
        rw [restartLoop_parks hrq hanswer hp]
        have hlen : (submit action s r (answer 0)).accounted.length ≤ s.accounted.length + 1 :=
          length_accounted_submit (answer 0)
        refine ⟨fun hsafe => ?_, fun hright => Or.inr ⟨?_, ret, hanswer, hp⟩⟩
        · obtain ⟨hpend, -⟩ | ⟨rfl, -⟩ := hsafe
          · exact absurd (hanswer.symm.trans hpend) (by simp)
          · refine ⟨?_, rfl⟩
            rw [hanswer, submit_inline, ← holding_nil, holding_rwComplete]
            exact ⟨hs, by simp [isWrite_of_parks hp]⟩
        · have heq := hright.once.length_eq
          dsimp only at heq
          rw [submit_popped] at heq
          exact List.eq_nil_of_length_eq_zero (by omega)
      | false =>
        refine ⟨fun hsafe => ?_, fun hright => ?_⟩
        · simp [WalkSafe, hanswer, hp] at hsafe
        · have hdefined := hright.defined
          rw [restartLoop_freed hanswer hp] at hdefined
          exact absurd hdefined (by decide)

/-! ### Images -/

theorem images_handleRequest {o : Offer} {t : Device} (h : handleRequest action s o = some t) :
    t.images = s.images := by
  unfold handleRequest virtioBlkHandleWrite virtioBlkHandleRead at h
  dsimp only at h
  split_ifs at h <;> cases h
  · rfl
  · exact submit_images _
  · exact submit_images _

theorem images_virtioBlkHandleOutput : ∀ {os : List Offer} {s t : Device},
    virtioBlkHandleOutput action s os = some t → t.images = s.images
  | [], _, _, h => by
    cases h
    rfl
  | o :: os, s, t, h => by
    obtain ⟨s₁, h₁, h⟩ := Option.bind_eq_some_iff.1 h
    exact (images_virtioBlkHandleOutput h).trans (images_handleRequest h₁)

theorem images_restartLoop : ∀ (fuel : ℕ) (answer : ℕ → Answer) (s : Device) (waiting : List Req),
    (restartLoop action fuel answer s waiting).1.images = s.images
  | 0, _, _, _ => rfl
  | _ + 1, _, _, [] => rfl
  | fuel + 1, answer, s, r :: next => by
    unfold restartLoop virtioBlkHandleWrite
    dsimp only
    split
    · exact submit_images _
    · exact (images_restartLoop fuel _ _ _).trans (submit_images _)

theorem virtioBlkLoad_eq (rq : List Req) : ∀ elems : List Req, virtioBlkLoad rq elems = rq
  | [] => rfl
  | _ :: elems => virtioBlkLoad_eq rq elems

/-- What was waiting when the image was made and what had been pushed make up what had been
popped, and the statuses were honest. -/
structure Image.Right (action : ErrorAction) (i : Image) : Prop where
  once : (i.pushed.map Push.req ++ i.waiting).Perm i.popped
  honest : ∀ p ∈ i.pushed, Honest action p

theorem Right.image (h : Right action s) : (virtioBlkSave s).Right action := by
  refine ⟨?_, h.honest⟩
  have honce := h.once
  unfold Device.accounted at honce
  rwa [List.append_assoc] at honce

/-! ### Runs -/

/-- The device is right, and so are the images it may be loaded from. -/
structure Inv (action : ErrorAction) (s : Device) : Prop where
  right : Right action s
  images : ∀ i ∈ s.images, i.Right action

theorem step_complete {n : ℕ} {t : Device} (h : s.step action (.complete n ret) = some t) :
    ∃ r, s.inflight[n]? = some r ∧ t = submit action { s with inflight := s.inflight.eraseIdx n } r (.inline ret) := by
  obtain ⟨r, hr, ht⟩ := Option.map_eq_some_iff.1 h
  exact ⟨r, hr, ht.symm⟩

theorem step_cont {answer : ℕ → Answer} {t : Device} (h : s.step action (.cont answer) = some t) :
    (s.running = true ∧ t = s) ∨
      (s.running = false ∧ t = virtioBlkDmaRestartCb action { s with running := true } true answer) := by
  cases hrun : s.running with
  | true =>
    simp only [Device.step, hrun, if_true, Option.some.injEq] at h
    exact Or.inl ⟨rfl, h.symm⟩
  | false =>
    simp only [Device.step, hrun, Bool.false_eq_true, if_false, Option.some.injEq] at h
    exact Or.inr ⟨rfl, h.symm⟩

theorem step_save {t : Device} (h : s.step action .save = some t) :
    t = { s with images := s.images ++ [virtioBlkSave s] } := by
  cases hrun : s.running with
  | true => simp [Device.step, hrun] at h
  | false =>
    simp only [Device.step, hrun, Bool.false_eq_true, if_false, Option.some.injEq] at h
    exact h.symm

theorem step_load {n : ℕ} {fresh : Bool} {t : Device} (h : s.step action (.load n fresh) = some t) :
    ∃ i, s.images[n]? = some i ∧ t = { s with popped := i.popped, pushed := i.pushed, inflight := [], running := false
                                              rq := if fresh then [] else s.rq } := by
  by_cases hguard : fresh = false ∧ (s.running = true ∨ s.inflight ≠ [])
  · simp only [Device.step, if_pos hguard] at h
    cases h
  · simp only [Device.step, if_neg hguard, virtioBlkLoad_eq] at h
    obtain ⟨i, hi, ht⟩ := Option.map_eq_some_iff.1 h
    exact ⟨i, hi, ht.symm⟩

theorem step_images {e : Event} {t : Device} (h : Inv action s) (hstep : s.step action e = some t) :
    ∀ i ∈ t.images, i.Right action := by
  cases e with
  | kick os =>
    rw [images_virtioBlkHandleOutput hstep]
    exact h.images
  | complete n ret =>
    obtain ⟨r, -, rfl⟩ := step_complete hstep
    rw [submit_images]
    exact h.images
  | stop =>
    cases hstep
    exact h.images
  | cont answer =>
    obtain ⟨-, rfl⟩ | ⟨-, rfl⟩ := step_cont hstep
    · exact h.images
    · show ∀ i ∈ (restartLoop action _ answer _ s.rq).1.images, _
      rw [images_restartLoop]
      exact h.images
  | save =>
    rw [step_save hstep]
    intro i hi
    rcases List.mem_append.1 hi with hi | hi
    · exact h.images i hi
    · rw [List.mem_singleton.1 hi]
      exact h.right.image
  | load n fresh =>
    obtain ⟨i, -, rfl⟩ := step_load hstep
    exact h.images

theorem right_complete {n : ℕ} (h : Right action s) (hr : s.inflight[n]? = some r) :
    Right action (submit action { s with inflight := s.inflight.eraseIdx n } r (.inline ret)) ↔
      (r.isWrite = false → ret = 0) := by
  rw [submit_inline, ← holding_nil, holding_rwComplete]
  refine and_iff_right ⟨?_, h.honest, h.resubmitted, h.defined⟩
  have herase : s.inflight.Perm (r :: s.inflight.eraseIdx n) := getElem?_eraseIdx_perm hr
  have hmiddle : (r :: (s.pushed.map Push.req ++ s.inflight.eraseIdx n ++ s.rq)).Perm s.accounted := by
    unfold Device.accounted
    refine List.Perm.symm (((herase.append_left _).append_right _).trans ?_)
    rw [List.append_assoc, List.append_assoc, List.cons_append]
    exact List.perm_middle
  exact hmiddle.trans h.once

theorem right_virtioBlkDmaRestartCb {answer : ℕ → Answer} (h : Right action s) :
    Right action (virtioBlkDmaRestartCb action s true answer) ↔ WalkSafe action s.rq answer := by
  have hheld : Holding action s.rq { s with rq := [] } := by
    refine ⟨?_, h.honest, h.resubmitted, h.defined⟩
    refine List.perm_append_comm.trans ?_
    unfold Device.accounted
    rw [List.append_nil]
    exact h.once
  obtain ⟨hkeep, hlose⟩ := right_restartLoop (s.rq.length + 1) answer { s with rq := [] } s.rq rfl
    (Nat.le_succ _) hheld
  constructor
  · intro hright
    exact hlose ⟨hright.once, hright.honest,
      fun w hw => hright.resubmitted w (List.mem_append_left _ hw), hright.defined⟩
  · intro hsafe
    obtain ⟨hright, hall⟩ := hkeep hsafe
    refine ⟨hright.once, hright.honest, fun w hw => ?_, hright.defined⟩
    rcases List.mem_append.1 hw with hw | hw
    · exact hright.resubmitted w hw
    · rw [List.mem_singleton.1 hw]
      exact hall

/-- One event leaves the device right exactly when it meets its condition. -/
theorem right_step {e : Event} {t : Device} (h : Inv action s) (hstep : s.step action e = some t) :
    Right action t ↔ EventSafe action s e := by
  have hright := h.right
  cases e with
  | kick os =>
    rw [right_virtioBlkHandleOutput hright.once.length_eq.le hstep]
    exact and_iff_right hright
  | complete n ret =>
    obtain ⟨r, hr, rfl⟩ := step_complete hstep
    rw [right_complete hright hr]
    simp [EventSafe, hr]
  | stop =>
    cases hstep
    exact iff_of_true ⟨hright.once, hright.honest, hright.resubmitted, hright.defined⟩ trivial
  | cont answer =>
    obtain ⟨hrun, rfl⟩ | ⟨hrun, rfl⟩ := step_cont hstep
    · simp [EventSafe, hrun, hright]
    · have hstart : Right action { s with running := true } :=
        ⟨hright.once, hright.honest, hright.resubmitted, hright.defined⟩
      rw [right_virtioBlkDmaRestartCb hstart]
      simp [EventSafe, hrun]
  | save =>
    rw [step_save hstep]
    exact iff_of_true ⟨hright.once, hright.honest, hright.resubmitted, hright.defined⟩ trivial
  | load n fresh =>
    obtain ⟨i, hi, rfl⟩ := step_load hstep
    have himage := h.images i (List.mem_of_getElem? hi)
    have hcancel : (i.pushed.map Push.req ++ if fresh then [] else s.rq).Perm i.popped ↔
        (if fresh then [] else s.rq).Perm i.waiting := by
      have hleft : (i.pushed.map Push.req ++ if fresh then [] else s.rq).Perm (i.pushed.map Push.req ++ i.waiting) ↔
          (if fresh then [] else s.rq).Perm i.waiting := List.perm_append_left_iff _
      exact ⟨fun hp => hleft.1 (hp.trans himage.once.symm), fun hp => (hleft.2 hp).trans himage.once⟩
    simp only [EventSafe, hi, Option.some.injEq, forall_eq']
    rw [← hcancel]
    constructor
    · intro hr
      have honce := hr.once
      unfold Device.accounted at honce
      rwa [List.append_nil] at honce
    · intro hp
      refine ⟨?_, himage.honest, hright.resubmitted, hright.defined⟩
      unfold Device.accounted
      rwa [List.append_nil]

end

/-- In every state of a run each popped request has been pushed once, is with the block layer or
is parked, with an honest status, and each restart submits what was parked, exactly when the
events of the run meet their conditions. -/
theorem virtio_blk_requests_iff (action : ErrorAction) (es : List Event) :
    (∀ n s, (es.take n).foldlM (Device.step action) Device.init = some s → Right action s) ↔
      MeetsDone (Device.step action) (EventSafe action) Device.init es := by
  refine foldlM_take_iff_meetsDone_of (P := Inv action) (fun s h => h.right) ?_ ?_ es _ ?_
  · intro s e t hs hstep hsafe
    exact ⟨(right_step hs hstep).2 hsafe, step_images hs hstep⟩
  · intro s e t hs hstep hright
    exact (right_step hs hstep).1 hright
  · exact ⟨⟨List.Perm.refl _, by simp [Device.init], by simp [Device.init], rfl⟩, by simp [Device.init]⟩

/-- A read of one sector, which the block layer takes. -/
def oneRead : Offer := ⟨⟨0, [(0x2000, 512), (0x3000, 1)], [(0x1000, 16)]⟩, ⟨0, 0⟩, .pending⟩

/-- A read that fails with `EIO` is pushed with a good status. -/
theorem virtio_blk_failed_read_ok : ¬ ∀ (action : ErrorAction) (es : List Event) (n : ℕ) (s : Device),
    (es.take n).foldlM (Device.step action) Device.init = some s → Right action s := by
  intro h
  have hright := h .report [.kick [oneRead], .complete 0 (-5)] 2 _ rfl
  have hhonest := hright.honest _ (List.mem_singleton_self _) rfl
  revert hhonest
  decide

end Ar7Qemu.Virtio.Blk
