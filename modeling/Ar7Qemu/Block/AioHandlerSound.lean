import Ar7Qemu.Block.AioHandler
import Mathlib.Data.List.Nodup

/-! The registry of AIO handlers over whole runs. The list follows the calls as long as no handler is
registered on a node that is still marked as deleted, no flush function of a marked node is asked,
and no node is freed at which a walk in progress stands. -/

namespace Ar7Qemu.AioHandler

open Lib

/-! ### Lists of nodes -/

section Lists

variable {l : List Node} {id fd : ℕ} {f : Node → Node} {n : Node}

theorem map_updateNode {α : Type*} (g : Node → α) (hf : ∀ n, g (f n) = g n) : (updateNode l id f).map g = l.map g := by
  rw [updateNode, List.map_map]
  refine List.map_congr_left fun n _ => ?_
  rw [Function.comp_apply]
  split_ifs
  · exact hf n
  · rfl

theorem mem_updateNode : n ∈ updateNode l id f ↔ (∃ m ∈ l, m.id = id ∧ f m = n) ∨ (n ∈ l ∧ n.id ≠ id) := by
  rw [updateNode, List.mem_map]
  constructor
  · rintro ⟨m, hm, heq⟩
    split_ifs at heq with hid
    · exact .inl ⟨m, hm, hid, heq⟩
    · exact .inr ⟨heq ▸ hm, heq ▸ hid⟩
  · rintro (⟨m, hm, hid, heq⟩ | ⟨hn, hid⟩)
    · exact ⟨m, hm, by rw [if_pos hid, heq]⟩
    · exact ⟨n, hn, if_neg hid⟩

theorem mem_removeNode : n ∈ removeNode l id ↔ n ∈ l ∧ n.id ≠ id := by
  rw [removeNode, List.mem_filter, decide_eq_true_eq]

theorem nodup_removeNode {α : Type*} (g : Node → α) (h : (l.map g).Nodup) : ((removeNode l id).map g).Nodup :=
  h.sublist (List.filter_sublist.map g)

theorem findAioHandler_some (h : findAioHandler l fd = some n) : n ∈ l ∧ n.fd = fd :=
  ⟨List.mem_of_find?_eq_some h, by simpa using List.find?_some h⟩

theorem findAioHandler_none (h : findAioHandler l fd = none) : ∀ n ∈ l, n.fd ≠ fd := by
  intro n hn
  simpa using List.find?_eq_none.1 h n hn

theorem mem_of_nextNode (h : nextNode l id = some n) : n ∈ l := by
  unfold nextNode at h
  have htail : n ∈ (l.dropWhile fun m => m.id ≠ id).tail := List.mem_of_mem_head? (by rw [h]; rfl)
  exact (List.dropWhile_sublist _).subset (List.mem_of_mem_tail htail)

theorem nextNode_ne (hids : (l.map Node.id).Nodup) (h : nextNode l id = some n) : n.id ≠ id := by
  induction l with
  | nil => simp [nextNode] at h
  | cons m l ih =>
    rw [List.map_cons, List.nodup_cons] at hids
    by_cases hm : m.id = id
    · have hhead : l.head? = some n := by simpa [nextNode, hm] using h
      intro heq
      exact hids.1 (List.mem_map.2 ⟨n, List.mem_of_mem_head? (by rw [hhead]; rfl), heq.trans hm.symm⟩)
    · exact ih hids.2 (by simpa [nextNode, hm] using h)

theorem eq_of_key {α : Type*} {g : Node → α} (h : (l.map g).Nodup) {m : Node} (hn : n ∈ l) (hm : m ∈ l) (heq : g n = g m) :
    n = m := List.inj_on_of_nodup_map h hn hm heq

theorem filter_fd (h : (l.map Node.fd).Nodup) (hn : n ∈ l) :
    (l.filter fun m => m.fd = n.fd && !m.deleted) = if n.deleted then [] else [n] := by
  induction l with
  | nil => cases hn
  | cons m l ih =>
    rw [List.map_cons, List.nodup_cons] at h
    rcases List.mem_cons.1 hn with rfl | hn
    · have hrest : (l.filter fun m => m.fd = n.fd && !m.deleted) = [] := by
        refine List.filter_eq_nil_iff.2 fun m hm => ?_
        have hne : m.fd ≠ n.fd := fun heq => h.1 (List.mem_map.2 ⟨m, hm, heq⟩)
        simp [hne]
      rw [List.filter_cons, hrest]
      cases n.deleted <;> simp
    · have hne : m.fd ≠ n.fd := fun heq => h.1 (List.mem_map.2 ⟨n, hn, heq.symm⟩)
      rw [List.filter_cons, if_neg (by simp [hne]), ih h.2 hn]

end Lists

/-! ### The registry -/

/-- The list holds a node for each registered descriptor, and its marks say which were deleted. -/
structure Registry (l : List Node) (next : ℕ) (latest : ℕ → Option Callbacks) : Prop where
  ids : (l.map Node.id).Nodup
  fresh : ∀ n ∈ l, n.id < next
  fds : (l.map Node.fd).Nodup
  node : ∀ n ∈ l, latest n.fd = if n.deleted then none else some n.callbacks
  found : ∀ fd, latest fd ≠ none → ∃ n ∈ l, n.fd = fd

section Registry

variable {l : List Node} {next fd : ℕ} {latest : ℕ → Option Callbacks} {n : Node}

theorem Registry.insert (h : Registry l next latest) (hfind : ∀ n ∈ l, n.fd ≠ fd) (c : Callbacks) :
    Registry (⟨next, fd, c, false⟩ :: l) (next + 1) (Function.update latest fd (some c)) := by
  refine ⟨?_, ?_, ?_, ?_, ?_⟩
  · rw [List.map_cons, List.nodup_cons]
    refine ⟨fun hmem => ?_, h.ids⟩
    obtain ⟨m, hm, heq⟩ := List.mem_map.1 hmem
    exact absurd (h.fresh m hm) (by rw [heq]; exact Nat.lt_irrefl _)
  · intro m hm
    rcases List.mem_cons.1 hm with rfl | hm
    · exact Nat.lt_succ_self next
    · exact Nat.lt_succ_of_lt (h.fresh m hm)
  · rw [List.map_cons, List.nodup_cons]
    refine ⟨fun hmem => ?_, h.fds⟩
    obtain ⟨m, hm, heq⟩ := List.mem_map.1 hmem
    exact hfind m hm heq
  · intro m hm
    rcases List.mem_cons.1 hm with rfl | hm
    · exact Function.update_self ..
    · rw [Function.update_of_ne (hfind m hm), h.node m hm]
  · intro fd' hne
    by_cases hfd : fd' = fd
    · exact ⟨_, List.mem_cons_self, hfd.symm⟩
    · rw [Function.update_of_ne hfd] at hne
      obtain ⟨m, hm, heq⟩ := h.found fd' hne
      exact ⟨m, List.mem_cons_of_mem _ hm, heq⟩

/-- The node of a descriptor is changed to what the last call says. -/
theorem Registry.update (h : Registry l next latest) (hn : n ∈ l) {f : Node → Node} {c : Option Callbacks}
    (hid : ∀ m, (f m).id = m.id) (hfd : ∀ m, (f m).fd = m.fd)
    (hf : c = if (f n).deleted then none else some (f n).callbacks) :
    Registry (updateNode l n.id f) next (Function.update latest n.fd c) := by
  refine ⟨?_, ?_, ?_, ?_, ?_⟩
  · rw [map_updateNode Node.id hid]
    exact h.ids
  · intro m hm
    rcases mem_updateNode.1 hm with ⟨m', hm', -, rfl⟩ | ⟨hm', -⟩
    · rw [hid]
      exact h.fresh m' hm'
    · exact h.fresh m hm'
  · rw [map_updateNode Node.fd hfd]
    exact h.fds
  · intro m hm
    rcases mem_updateNode.1 hm with ⟨m', hm', heq, rfl⟩ | ⟨hm', hne⟩
    · obtain rfl := eq_of_key h.ids hm' hn heq
      rw [hfd, Function.update_self, hf]
    · have hne' : m.fd ≠ n.fd := fun heq => hne (congrArg Node.id (eq_of_key h.fds hm' hn heq))
      rw [Function.update_of_ne hne', h.node m hm']
  · intro fd' hne
    have hmap : (updateNode l n.id f).map Node.fd = l.map Node.fd := map_updateNode Node.fd hfd
    have hmem : fd' ∈ l.map Node.fd := by
      by_cases heq : fd' = n.fd
      · exact List.mem_map.2 ⟨n, hn, heq.symm⟩
      · rw [Function.update_of_ne heq] at hne
        obtain ⟨m, hm, hm'⟩ := h.found fd' hne
        exact List.mem_map.2 ⟨m, hm, hm'⟩
    rw [← hmap] at hmem
    obtain ⟨m, hm, heq⟩ := List.mem_map.1 hmem
    exact ⟨m, hm, heq⟩

theorem Registry.remove (h : Registry l next latest) (hn : n ∈ l) :
    Registry (removeNode l n.id) next (Function.update latest n.fd none) := by
  refine ⟨nodup_removeNode Node.id h.ids, fun m hm => h.fresh m (mem_removeNode.1 hm).1, nodup_removeNode Node.fd h.fds, ?_, ?_⟩
  · intro m hm
    obtain ⟨hm', hne⟩ := mem_removeNode.1 hm
    have hne' : m.fd ≠ n.fd := fun heq => hne (congrArg Node.id (eq_of_key h.fds hm' hn heq))
    rw [Function.update_of_ne hne', h.node m hm']
  · intro fd' hne
    by_cases heq : fd' = n.fd
    · rw [heq, Function.update_self] at hne
      exact absurd rfl hne
    · rw [Function.update_of_ne heq] at hne
      obtain ⟨m, hm, hm'⟩ := h.found fd' hne
      refine ⟨m, mem_removeNode.2 ⟨hm, fun hid => heq ?_⟩, hm'⟩
      rw [← hm', eq_of_key h.ids hm hn hid]

theorem Registry.absent (h : Registry l next latest) (hfind : ∀ n ∈ l, n.fd ≠ fd) :
    Registry l next (Function.update latest fd none) := by
  have hsame : Function.update latest fd none = latest := by
    refine Function.update_eq_self_iff.2 ?_
    by_contra hne
    obtain ⟨n, hn, heq⟩ := h.found fd (Ne.symm hne)
    exact hfind n hn heq
  rw [hsame]
  exact h

theorem Registry.live (h : Registry l next latest) (fd : ℕ) :
    (l.filter fun n => n.fd = fd && !n.deleted).map Node.callbacks = (latest fd).toList := by
  by_cases hmem : ∃ n ∈ l, n.fd = fd
  · obtain ⟨n, hn, rfl⟩ := hmem
    rw [filter_fd h.fds hn, h.node n hn]
    cases n.deleted <;> rfl
  · have hnone : latest fd = none := by
      by_contra hne
      exact hmem (h.found fd hne)
    have hrest : (l.filter fun n => n.fd = fd && !n.deleted) = [] := by
      refine List.filter_eq_nil_iff.2 fun n hn => ?_
      have hne : n.fd ≠ fd := fun heq => hmem ⟨n, hn, heq⟩
      simp [hne]
    rw [hrest, hnone]
    rfl

end Registry

/-! ### Walks -/

/-- A call in progress stands at the node with this address. -/
def StandsAt (stack : List Frame) (id : ℕ) : Prop := ∃ f ∈ stack, ∃ part, f.pos = .node id part

/-- The registry is right, and every walk stands at a node of the list. -/
structure Inv (s : State) : Prop where
  registry : Registry s.aioHandlers s.next s.latest
  stands : ∀ id, StandsAt s.stack id → ∃ n ∈ s.aioHandlers, n.id = id
  fault : s.fault = false
  stale : s.stale = false

/-- The step takes none of the ways by which the list loses track: a handler is not registered on a
node that is marked as deleted, the flush function of such a node is not asked, and no node is freed
at which another walk stands. -/
def Safe (s : State) : Label → Prop
  | .set fd c =>
    if c.deletes then s.walkingHandlers = false → ∀ n ∈ s.aioHandlers, n.fd = fd → ¬StandsAt s.stack n.id
    else ∀ n ∈ s.aioHandlers, n.fd = fd → n.deleted = false
  | .round _ _ => ∀ n ∈ s.aioHandlers, n.deleted = true → n.callbacks.ioFlush = none
  | .walk => ∀ n ∈ s.aioHandlers, n.deleted = true → (s.stack.head?.map Frame.pos) = some (.node n.id .leave) →
      ¬StandsAt s.stack.tail n.id
  | _ => True

/-- The walk stands at the node with this address. -/
def Frame.isAt (id : ℕ) (f : Frame) : Bool :=
  match f.pos with
  | .node i _ => i = id
  | .fill => false

theorem any_isAt (stack : List Frame) (id : ℕ) : stack.any (Frame.isAt id) = true ↔ StandsAt stack id := by
  rw [List.any_eq_true]
  refine exists_congr fun f => and_congr_right fun _ => ?_
  unfold Frame.isAt
  cases f.pos with
  | fill => simp
  | node i part => simp

instance decidableStandsAt (stack : List Frame) (id : ℕ) : Decidable (StandsAt stack id) :=
  decidable_of_iff _ (any_isAt stack id)

instance decidableSafe (s : State) : ∀ a, Decidable (Safe s a)
  | .set fd c =>
    inferInstanceAs (Decidable (if c.deletes then s.walkingHandlers = false → ∀ n ∈ s.aioHandlers, n.fd = fd → ¬StandsAt s.stack n.id
      else ∀ n ∈ s.aioHandlers, n.fd = fd → n.deleted = false))
  | .round _ _ => inferInstanceAs (Decidable (∀ n ∈ s.aioHandlers, n.deleted = true → n.callbacks.ioFlush = none))
  | .walk =>
    inferInstanceAs (Decidable (∀ n ∈ s.aioHandlers, n.deleted = true →
      (s.stack.head?.map Frame.pos) = some (.node n.id .leave) → ¬StandsAt s.stack.tail n.id))
  | .wait _ => instDecidableTrue
  | .done => instDecidableTrue

section Steps

variable {s s' : State} {f : Frame} {rest : List Frame} {n : Node}

theorem Inv.right (h : Inv s) : Right s := ⟨h.registry.live, h.fault, h.stale⟩

theorem inv_init : Inv init := by
  refine ⟨⟨List.nodup_nil, ?_, List.nodup_nil, ?_, ?_⟩, ?_, rfl, rfl⟩
  · intro n hn
    cases hn
  · intro n hn
    cases hn
  · intro fd hne
    exact absurd rfl hne
  · rintro id ⟨f, hf, -⟩
    cases hf

theorem Inv.set (h : Inv s) {fd : ℕ} {c : Callbacks} (hsafe : Safe s (.set fd c)) : Inv (qemuAioSetFdHandler s fd c) := by
  unfold Safe at hsafe
  dsimp only at hsafe
  unfold qemuAioSetFdHandler setFdHandler
  cases hfind : findAioHandler s.aioHandlers fd with
  | none =>
    have hnone := findAioHandler_none hfind
    dsimp only
    split_ifs with hdel
    · exact ⟨h.registry.absent hnone, h.stands, h.fault, h.stale⟩
    · refine ⟨h.registry.insert hnone c, fun id hid => ?_, h.fault, h.stale⟩
      obtain ⟨n, hn, heq⟩ := h.stands id hid
      exact ⟨n, List.mem_cons_of_mem _ hn, heq⟩
  | some n =>
    obtain ⟨hn, rfl⟩ := findAioHandler_some hfind
    have hkept : ∀ g : Node → Node, (∀ m, (g m).id = m.id) → ∀ id, StandsAt s.stack id →
        ∃ m ∈ updateNode s.aioHandlers n.id g, m.id = id := by
      intro g hg id hid
      obtain ⟨m, hm, rfl⟩ := h.stands id hid
      have hmem : m.id ∈ (updateNode s.aioHandlers n.id g).map Node.id := by
        rw [map_updateNode Node.id hg]
        exact List.mem_map.2 ⟨m, hm, rfl⟩
      obtain ⟨m', hm', heq⟩ := List.mem_map.1 hmem
      exact ⟨m', hm', heq⟩
    dsimp only
    split_ifs at hsafe ⊢ with hdel hwalk
    · exact ⟨h.registry.update hn (fun _ => rfl) (fun _ => rfl) rfl, hkept _ fun _ => rfl, h.fault, h.stale⟩
    · refine ⟨h.registry.remove hn, fun id hid => ?_, h.fault, h.stale⟩
      obtain ⟨m, hm, rfl⟩ := h.stands id hid
      refine ⟨m, mem_removeNode.2 ⟨hm, fun heq => ?_⟩, rfl⟩
      rw [heq] at hid
      exact hsafe (by simpa using hwalk) n hn rfl hid
    · refine ⟨h.registry.update hn (fun _ => rfl) (fun _ => rfl) ?_, hkept _ fun _ => rfl, h.fault, h.stale⟩
      rw [hsafe n hn rfl]
      rfl

theorem StandsAt.tail {id : ℕ} (h : StandsAt rest id) : StandsAt (f :: rest) id := by
  obtain ⟨g, hg, hpos⟩ := h
  exact ⟨g, List.mem_cons_of_mem _ hg, hpos⟩

theorem standsAt_cons {id id' : ℕ} {part : Part} (hpos : f.pos = .node id' part) :
    StandsAt (f :: rest) id ↔ id = id' ∨ StandsAt rest id := by
  constructor
  · rintro ⟨g, hg, part', hg'⟩
    rcases List.mem_cons.1 hg with rfl | hg
    · rw [hpos] at hg'
      cases hg'
      exact .inl rfl
    · exact .inr ⟨g, hg, part', hg'⟩
  · rintro (rfl | h)
    · exact ⟨f, List.mem_cons_self, part, hpos⟩
    · exact h.tail

theorem Node.latest_eq_none_iff (h : Inv s) (hn : n ∈ s.aioHandlers) : s.latest n.fd = none ↔ n.deleted = true := by
  rw [h.registry.node n hn]
  cases n.deleted <;> simp

theorem inv_walkTo (hreg : Registry s.aioHandlers s.next s.latest)
    (hrest : ∀ id, StandsAt rest id → ∃ n ∈ s.aioHandlers, n.id = id) (hfault : s.fault = false) (hstale : s.stale = false)
    {next : Option Node} (hnext : ∀ n, next = some n → n ∈ s.aioHandlers) : Inv (walkTo s f rest next) := by
  cases next with
  | none => exact ⟨hreg, hrest, hfault, hstale⟩
  | some n =>
    refine ⟨hreg, fun id hid => ?_, hfault, hstale⟩
    rcases (standsAt_cons rfl).1 hid with rfl | hid
    · exact ⟨n, hnext n rfl, rfl⟩
    · exact hrest id hid

theorem flushStale_eq_false (h : Inv s) (hsafe : ∀ n ∈ s.aioHandlers, n.deleted = true → n.callbacks.ioFlush = none) :
    flushStale s = false := by
  refine List.any_eq_false.2 fun n hn hstale => ?_
  rw [Bool.and_eq_true, Option.isNone_iff_eq_none, Node.latest_eq_none_iff h hn] at hstale
  rw [hsafe n hn hstale.2] at hstale
  cases hstale.1

theorem Inv.round (h : Inv s) (hstack : s.stack = f :: rest) {work : ℕ → Bool} {sel : Select}
    (hsafe : Safe s (.round work sel)) : Inv (waitRound s f rest work sel) := by
  have hrest : ∀ id, StandsAt rest id → ∃ n ∈ s.aioHandlers, n.id = id := fun id hid => h.stands id (hstack ▸ hid.tail)
  have hstale : (s.stale || flushStale s) = false := by
    rw [h.stale, flushStale_eq_false h hsafe]
    rfl
  unfold waitRound
  dsimp only
  split_ifs
  · cases sel with
    | fail => exact ⟨h.registry, hrest, h.fault, hstale⟩
    | timeout => exact ⟨h.registry, h.stands, h.fault, hstale⟩
    | ready rd wr =>
      apply inv_walkTo
      · exact h.registry
      · exact hrest
      · exact h.fault
      · exact hstale
      · exact fun n hn => List.mem_of_mem_head? hn
  · exact ⟨h.registry, hrest, h.fault, hstale⟩

theorem Inv.stay (h : Inv s) (hstack : s.stack = f :: rest) {id : ℕ} {part : Part} (hpos : f.pos = .node id part) (part' : Part)
    {stale : Bool} (hstale : stale = false) :
    Inv { s with stack := { f with pos := .node id part' } :: rest, stale := stale } := by
  refine ⟨h.registry, fun id' hid => h.stands id' ?_, h.fault, hstale⟩
  rw [hstack, standsAt_cons hpos]
  exact (standsAt_cons rfl).1 hid

theorem Inv.visit (h : Inv s) (hstack : s.stack = f :: rest) {part : Part} (hpos : f.pos = .node n.id part)
    (hn : n ∈ s.aioHandlers) (hsafe : Safe s .walk) : Inv (visit s f rest n part) := by
  have hrest : ∀ id, StandsAt rest id → ∃ m ∈ s.aioHandlers, m.id = id := fun id hid => h.stands id (hstack ▸ hid.tail)
  have hlive : n.deleted = false → (s.stale || (s.latest n.fd).isNone) = false := by
    intro hdel
    rw [h.stale, h.registry.node n hn, hdel]
    rfl
  cases part with
  | read =>
    unfold AioHandler.visit
    dsimp only
    split_ifs with hcall
    · rw [Bool.and_eq_true, Bool.and_eq_true, Bool.not_eq_true'] at hcall
      exact h.stay hstack hpos .reading (hlive hcall.1.1)
    · exact h.stay hstack hpos .write h.stale
  | write =>
    unfold AioHandler.visit
    dsimp only
    split_ifs with hcall
    · rw [Bool.and_eq_true, Bool.and_eq_true, Bool.not_eq_true'] at hcall
      exact h.stay hstack hpos .writing (hlive hcall.1.1)
    · exact h.stay hstack hpos .leave h.stale
  | leave =>
    unfold AioHandler.visit
    dsimp only
    split_ifs with hdel
    · have hnone : s.latest n.fd = none := (Node.latest_eq_none_iff h hn).2 hdel
      have hreg := h.registry.remove hn
      rw [show Function.update s.latest n.fd none = s.latest from Function.update_eq_self_iff.2 hnone.symm] at hreg
      have hout : ¬StandsAt rest n.id := by
        have hwalk := hsafe n hn hdel
        rw [hstack] at hwalk
        exact hwalk (by rw [List.head?_cons, Option.map_some, hpos])
      have hrest' : ∀ id, StandsAt rest id → ∃ m ∈ removeNode s.aioHandlers n.id, m.id = id := by
        intro id hid
        obtain ⟨m, hm, rfl⟩ := hrest id hid
        exact ⟨m, mem_removeNode.2 ⟨hm, fun heq => hout (heq ▸ hid)⟩, rfl⟩
      apply inv_walkTo
      · exact hreg
      · exact hrest'
      · exact h.fault
      · exact h.stale
      · exact fun m hm => mem_removeNode.2 ⟨mem_of_nextNode hm, nextNode_ne h.registry.ids hm⟩
    · exact inv_walkTo h.registry hrest h.fault h.stale fun m hm => mem_of_nextNode hm
  | reading => exact h
  | writing => exact h

theorem inv_step (h : Inv s) {a : Label} (hsafe : Safe s a) (hstep : step s a = some s') : Inv s' := by
  cases a with
  | set fd c =>
    dsimp only [step] at hstep
    split_ifs at hstep
    cases hstep
    exact h.set hsafe
  | wait bh =>
    dsimp only [step] at hstep
    split_ifs at hstep
    · cases hstep
      exact h
    · cases hstep
      refine ⟨h.registry, fun id hid => h.stands id ?_, h.fault, h.stale⟩
      obtain ⟨g, hg, part, hpos⟩ := hid
      rcases List.mem_cons.1 hg with rfl | hg
      · cases hpos
      · exact ⟨g, hg, part, hpos⟩
  | round work sel =>
    dsimp only [step] at hstep
    cases hstack : s.stack with
    | nil => simp [hstack] at hstep
    | cons f rest =>
      rw [hstack] at hstep
      dsimp only at hstep
      split_ifs at hstep
      cases hstep
      exact h.round hstack hsafe
  | walk =>
    dsimp only [step] at hstep
    cases hstack : s.stack with
    | nil => simp [hstack] at hstep
    | cons f rest =>
      rw [hstack] at hstep
      cases hpos : f.pos with
      | fill => simp [hpos] at hstep
      | node id part =>
        simp only [hpos] at hstep
        split_ifs at hstep
        obtain ⟨n, hn, hid⟩ := h.stands id (hstack ▸ (standsAt_cons hpos).2 (.inl rfl))
        cases hfind : s.aioHandlers.find? fun n => n.id = id with
        | none => exact absurd hid (by simpa using List.find?_eq_none.1 hfind n hn)
        | some m =>
          rw [hfind] at hstep
          cases hstep
          have hm : m.id = id := by simpa using List.find?_some hfind
          exact h.visit hstack (hm ▸ hpos) (List.mem_of_find?_eq_some hfind) hsafe
  | done =>
    dsimp only [step] at hstep
    cases hstack : s.stack with
    | nil => simp [hstack] at hstep
    | cons f rest =>
      rw [hstack] at hstep
      cases hpos : f.pos with
      | fill => simp [hpos] at hstep
      | node id part =>
        cases part with
        | reading =>
          simp only [hpos] at hstep
          cases hstep
          exact h.stay hstack hpos .write h.stale
        | writing =>
          simp only [hpos] at hstep
          cases hstep
          exact h.stay hstack hpos .leave h.stale
        | read => simp [hpos] at hstep
        | write => simp [hpos] at hstep
        | leave => simp [hpos] at hstep

end Steps

/-- In every run whose steps are safe, in every state: each descriptor has exactly the live handler
of its last call, no freed node was used and no callback of a deleted handler ran. -/
theorem aio_registry_right (run : List Label) (hsafe : MeetsM step Safe init run) :
    ∀ k s, (run.take k).foldlM step init = some s → Right s := by
  intro k s hs
  exact (foldlM_take_invariant (P := Inv) (fun _ _ _ h hok hstep => inv_step h hok hstep) run init inv_init hsafe k s hs).right

def readOnly (cb : ℕ) : Callbacks := ⟨some cb, none, none, 0⟩

def noCallbacks : Callbacks := ⟨none, none, none, 0⟩

def allReady : Select := .ready (fun _ => true) fun _ => true

/-- Descriptor 5 becomes readable, and its callback waits again and deletes the handler of 6. -/
def nestedRun : List Label :=
  [.set 5 (readOnly 1), .set 6 (readOnly 2), .wait false, .round (fun _ => true) allReady, .walk, .done, .walk, .walk,
    .walk, .wait false, .round (fun _ => true) .fail, .set 6 noCallbacks, .done, .walk, .walk]

theorem nestedRun_right : MeetsM step Safe init nestedRun ∧
    ∀ k s, (nestedRun.take k).foldlM step init = some s → Right s := by
  have hsafe : MeetsM step Safe init nestedRun := by
    decide
  exact ⟨hsafe, aio_registry_right nestedRun hsafe⟩

/-- A callback deletes its handler and registers it anew: the walk frees the node. -/
def reregisterRun : List Label :=
  [.set 5 (readOnly 1), .wait false, .round (fun _ => true) allReady, .walk, .set 5 noCallbacks, .set 5 (readOnly 2),
    .done, .walk, .walk]

theorem reregistered_handler_lost : ∃ s, reregisterRun.foldlM step init = some s ∧ s.stack = [] ∧ ¬Right s := by
  refine ⟨_, rfl, rfl, fun h => ?_⟩
  exact absurd (h.live 5) (by decide)

end Ar7Qemu.AioHandler
