import Mathlib.Data.Finset.Card
import Mathlib.Data.List.Nodup
import Mathlib.Tactic.Common

/-! Linked lists in a heap of nodes: segments, families of disjoint chains, families of
rings that go through a sentinel, and the removal of a node by a walk that keeps the place
of the last pointer. -/

namespace Ar7Qemu.Lib

variable {N K : Type*}

/-- The nodes from pointer `p` up to pointer `e`. -/
def Seg (next : N → Option N) : Option N → List N → Option N → Prop
  | p, [], e => p = e
  | p, a :: l, e => p = some a ∧ Seg next (next a) l e

/-- Walk from a pointer to the first node that meets `hit`. The result is the node and the
node whose pointer leads to it, which is `prev` at the start. -/
def findNode (next : N → Option N) (hit : N → Bool) : ℕ → Option N → Option N → Option (Option N × N)
  | 0, _, _ => none
  | _ + 1, _, none => none
  | fuel + 1, prev, some a => if hit a then some (prev, a) else findNode next hit fuel (some a) (next a)

/-- Take the first node that meets `hit` out of the chain of a head pointer. -/
def unlink [DecidableEq N] (next : N → Option N) (hit : N → Bool) (fuel : ℕ) (head : Option N) :
    Option ((N → Option N) × Option N) :=
  match findNode next hit fuel none head with
  | none => none
  | some (none, a) => some (next, next a)
  | some (some b, a) => some (Function.update next b (next a), head)

def unlinkRing [DecidableEq N] (next : N → Option N) (fuel : ℕ) (a : N) : Option (N → Option N) :=
  match next a with
  | none => some next
  | some p =>
    match findNode next (· == a) fuel (some a) (some p) with
    | some (some b, _) => some (Function.update (Function.update next b (some p)) a none)
    | _ => none

/-- Take a node out of a ring, found from the sentinel. -/
def unlinkFrom [DecidableEq N] (next : N → Option N) (fuel : ℕ) (sentinel a : N) : Option (N → Option N) :=
  match findNode next (· == a) fuel (some sentinel) (next sentinel) with
  | some (some b, _) => some (Function.update (Function.update next b (next a)) a none)
  | _ => none

/-- Walk from a pointer to the first node that meets `stop`, or to the end of the chain. The
result is the node whose pointer leads there, which is `prev` at the start, and the pointer. -/
def findPlace (next : N → Option N) (stop : N → Bool) : ℕ → Option N → Option N → Option (Option N × Option N)
  | 0, _, _ => none
  | _ + 1, prev, none => some (prev, none)
  | fuel + 1, prev, some a =>
    if stop a then some (prev, some a) else findPlace next stop fuel (some a) (next a)

/-! ### Segments -/

section Seg

variable {next next' : N → Option N} {hit : N → Bool}

theorem seg_append {l₁ l₂ : List N} {p e : Option N} :
    Seg next p (l₁ ++ l₂) e ↔ ∃ q, Seg next p l₁ q ∧ Seg next q l₂ e := by
  induction l₁ generalizing p with
  | nil => simp [Seg]
  | cons a l₁ ih => simp [Seg, ih, and_assoc]

/-- A pointer leads to the first node of its segment. -/
theorem Seg.head?_eq {l : List N} {p : Option N} (h : Seg next p l none) : p = l.head? := by
  cases l with
  | nil => exact h
  | cons a l => exact h.1

/-- A node leads to the node after it. -/
theorem Seg.next_eq_head? {l₁ l₂ : List N} {p : Option N} {a : N} (h : Seg next p (l₁ ++ a :: l₂) none) :
    next a = l₂.head? := by
  obtain ⟨q, -, -, htail⟩ := seg_append.1 h
  exact htail.head?_eq

/-- A segment depends on the pointers of its nodes only. -/
theorem Seg.congr : ∀ {l : List N} {p e : Option N}, Seg next p l e → (∀ a ∈ l, next' a = next a) → Seg next' p l e
  | [], _, _, h, _ => h
  | a :: _, _, _, ⟨hp, h⟩, heq => by
    refine ⟨hp, ?_⟩
    rw [heq a List.mem_cons_self]
    exact Seg.congr h fun b hb => heq b (List.mem_cons_of_mem a hb)

/-- A list of nodes tells where its segment starts. -/
theorem Seg.start_eq {l : List N} {p p' e : Option N} (h : Seg next p l e) (h' : Seg next' p' l e) : p = p' := by
  cases l with
  | nil => exact h.trans (Eq.symm h')
  | cons a l => exact h.1.trans h'.1.symm

/-- The nodes of a segment that ends at a node have a successor. -/
theorem Seg.next_ne_none : ∀ {l : List N} {p : Option N} {e : N}, Seg next p l (some e) →
    p ≠ none ∧ ∀ a ∈ l, next a ≠ none
  | [], _, _, h => by
    subst h
    simp
  | a :: l, _, _, ⟨hp, h⟩ => by
    obtain ⟨hne, hall⟩ := h.next_ne_none
    refine ⟨by simp [hp], fun b hb => ?_⟩
    rcases List.mem_cons.1 hb with rfl | hb
    · exact hne
    · exact hall b hb

/-- The walk stops at the first node that meets `hit`. -/
theorem findNode_seg : ∀ {l₁ : List N} {fuel : ℕ} {prev p e : Option N} {a : N} {l₂ : List N},
    Seg next p (l₁ ++ a :: l₂) e → (∀ b ∈ l₁, hit b = false) → hit a = true → l₁.length < fuel →
    findNode next hit fuel prev p = some (l₁.getLast?.or prev, a)
  | [], fuel + 1, prev, p, e, a, l₂, ⟨hp, _⟩, _, ha, _ => by
    simp [findNode, hp, ha]
  | b :: l₁, fuel + 1, prev, p, e, a, l₂, ⟨hp, h⟩, hl, ha, hlen => by
    have ih : findNode next hit fuel (some b) (next b) = some (l₁.getLast?.or (some b), a) :=
      findNode_seg h (fun c hc => hl c (List.mem_cons_of_mem b hc)) ha (Nat.lt_of_succ_lt_succ hlen)
    rw [hp, findNode, if_neg (by simp [hl b List.mem_cons_self]), ih]
    cases l₁ with
    | nil => rfl
    | cons c l₁ => simp [List.getLast?_cons]

/-- The walk fails where no node meets `hit`. -/
theorem findNode_none : ∀ {l : List N} {p : Option N}, Seg next p l none → (∀ a ∈ l, hit a = false) →
    ∀ (fuel : ℕ) (prev : Option N), findNode next hit fuel prev p = none
  | _, _, _, _, 0, _ => rfl
  | [], p, h, _, fuel + 1, prev => by rw [show p = none from h, findNode]
  | a :: l, p, ⟨hp, h⟩, hl, fuel + 1, prev => by
    rw [hp, findNode, if_neg (by simp [hl a List.mem_cons_self])]
    exact findNode_none h (fun b hb => hl b (List.mem_cons_of_mem a hb)) fuel (some a)

/-- The walk to a place passes the nodes that do not meet `stop`. -/
theorem findPlace_seg (stop : N → Bool) : ∀ {l : List N} {p : Option N} {fuel : ℕ} (prev : Option N),
    Seg next p l none → l.length < fuel →
    findPlace next stop fuel prev p =
      some ((l.takeWhile (!stop ·)).getLast?.or prev, (l.dropWhile (!stop ·)).head?)
  | [], p, fuel + 1, prev, hp, _ => by
    rw [show p = none from hp]
    rfl
  | a :: l, p, fuel + 1, prev, ⟨hp, h⟩, hlen => by
    rw [hp, findPlace]
    cases ha : stop a with
    | true => simp [ha]
    | false =>
      rw [if_neg (by simp), findPlace_seg stop (some a) h (Nat.lt_of_succ_lt_succ hlen)]
      simp only [List.takeWhile_cons, List.dropWhile_cons, ha, Bool.not_false, if_true, List.getLast?_cons]
      cases (l.takeWhile (!stop ·)).getLast? with
      | none => rfl
      | some b => rfl

variable [DecidableEq N]

theorem Seg.update {l : List N} {p e : Option N} {b : N} (h : Seg next p l e) (hb : b ∉ l) (v : Option N) :
    Seg (Function.update next b v) p l e := by
  refine h.congr fun a ha => Function.update_of_ne ?_ _ _
  rintro rfl
  exact hb ha

/-- A node goes when the pointer to it is set to its successor. -/
theorem Seg.remove {l₁ l₂ : List N} {p e : Option N} {b a : N} (h : Seg next p (l₁ ++ b :: a :: l₂) e)
    (hnodup : (l₁ ++ b :: a :: l₂).Nodup) : Seg (Function.update next b (next a)) p (l₁ ++ b :: l₂) e := by
  obtain ⟨q, h₁, hq, hb, h₂⟩ := seg_append.1 h
  have hb₁ : b ∉ l₁ := fun hmem => (List.disjoint_of_nodup_append hnodup) hmem List.mem_cons_self
  have hb₂ : b ∉ a :: l₂ := (List.nodup_cons.1 (List.nodup_append.1 hnodup).2.1).1
  refine seg_append.2 ⟨q, ?_, hq, ?_⟩
  · exact h₁.update hb₁ _
  · rw [Function.update_self]
    exact h₂.update (fun hmem => hb₂ (List.mem_cons_of_mem _ hmem)) _

/-- The pointer after some nodes of a segment is set to the start of another segment. With no
nodes before it, the pointer is the one that leads to the segment. -/
theorem Seg.splice {l₁ l₂ l₃ : List N} {p q e e' : Option N} (h : Seg next p (l₁ ++ l₂) e)
    (hq : Seg next q l₃ e') (hnodup : l₁.Nodup) (hdisjoint : l₁.Disjoint l₃) :
    (l₁ = [] → Seg next q (l₁ ++ l₃) e') ∧
      ∀ b, l₁.getLast? = some b → Seg (Function.update next b q) p (l₁ ++ l₃) e' := by
  rcases List.eq_nil_or_concat l₁ with rfl | ⟨l, b, rfl⟩
  · exact ⟨fun _ => hq, fun b hb => absurd hb (by simp)⟩
  · rw [List.concat_eq_append] at *
    refine ⟨fun hnil => absurd hnil (by simp), fun b' hb' => ?_⟩
    rw [List.getLast?_append, List.getLast?_singleton, Option.some_or, Option.some.injEq] at hb'
    subst hb'
    rw [List.append_assoc] at h
    obtain ⟨r, hl, hr⟩ := seg_append.1 h
    have hb : b ∉ l := fun hmem => (List.disjoint_of_nodup_append hnodup) hmem (List.mem_singleton_self b)
    have hb₃ : b ∉ l₃ := fun hmem => hdisjoint (by simp) hmem
    rw [List.append_assoc]
    refine seg_append.2 ⟨r, hl.update hb q, hr.1, ?_⟩
    rw [Function.update_self]
    exact hq.update hb₃ q

/-- Two nodes at the start of a segment change places. -/
theorem Seg.swap_head {l : List N} {p e : Option N} {a b : N} (h : Seg next p (a :: b :: l) e) (hnodup : (a :: b :: l).Nodup) :
    Seg (Function.update (Function.update next a (next b)) b (some a)) (some b) (b :: a :: l) e := by
  obtain ⟨-, hb, hl⟩ := h
  obtain ⟨ha, hnodup⟩ := List.nodup_cons.1 hnodup
  have hab : a ≠ b := fun heq => ha (heq ▸ List.mem_cons_self)
  refine ⟨rfl, ?_, ?_⟩
  · rw [Function.update_self]
  · rw [Function.update_of_ne hab, Function.update_self]
    exact (hl.update (fun hmem => ha (List.mem_cons_of_mem b hmem)) _).update (List.nodup_cons.1 hnodup).1 _

/-- Two nodes that follow each other in a segment change places, when the pointer to the first is set to the second. -/
theorem Seg.swap {l₁ l : List N} {p e : Option N} {c a b : N} (h : Seg next p (l₁ ++ c :: a :: b :: l) e)
    (hnodup : (l₁ ++ c :: a :: b :: l).Nodup) :
    Seg (Function.update (Function.update (Function.update next a (next b)) b (some a)) c (some b)) p
      (l₁ ++ c :: b :: a :: l) e := by
  obtain ⟨q, h₁, hq, hc⟩ := seg_append.1 h
  have hdisjoint := List.disjoint_of_nodup_append hnodup
  obtain ⟨hc', hnodup⟩ := List.nodup_cons.1 (List.nodup_append.1 hnodup).2.1
  have hne : ∀ x ∈ [c, a, b], x ∉ l₁ := fun x hx hmem => hdisjoint hmem (by
    simp only [List.mem_cons, List.not_mem_nil, or_false] at hx ⊢
    tauto)
  refine seg_append.2 ⟨q, ?_, hq, ?_⟩
  · exact ((h₁.update (hne a (by simp)) _).update (hne b (by simp)) _).update (hne c (by simp)) _
  · rw [Function.update_self]
    refine (hc.swap_head hnodup).update (fun hmem => hc' ?_) _
    simp only [List.mem_cons] at hmem ⊢
    tauto

end Seg

/-! ### Chains -/

/-- A family of chains. A node that has a key is in the chain of its key. -/
structure Chains (next : N → Option N) (head : K → Option N) (key : N → Option K) (L : K → List N) : Prop where
  seg : ∀ k, Seg next (head k) (L k) none
  nodup : ∀ k, (L k).Nodup
  mem : ∀ k a, a ∈ L k ↔ key a = some k

section Chains

variable [DecidableEq N] [DecidableEq K] {next : N → Option N} {head : K → Option N} {key : N → Option K}
  {L : K → List N}

omit [DecidableEq N] [DecidableEq K] in
theorem Chains.not_mem (h : Chains next head key L) {a : N} (ha : key a = none) (k : K) : a ∉ L k := by
  rw [h.mem, ha]
  simp

/-- Membership after a node has been put into a list. -/
theorem mem_push (hmem : ∀ k a, a ∈ L k ↔ key a = some k) {a : N} (ha : key a = none) (k k' : K) (b : N) :
    b ∈ Function.update L k (a :: L k) k' ↔ Function.update key a (some k) b = some k' := by
  by_cases hb : b = a
  · subst hb
    rw [Function.update_self, Option.some.injEq]
    by_cases hk : k' = k
    · subst hk
      simp
    · simp [hk, hmem, ha, Ne.symm hk]
  · rw [Function.update_of_ne hb, ← hmem]
    by_cases hk : k' = k
    · subst hk
      simp [hb]
    · rw [Function.update_of_ne hk]

omit [DecidableEq N] in
theorem nodup_push (hnodup : ∀ k, (L k).Nodup) {a : N} {k : K} (ha : a ∉ L k) (k' : K) :
    (Function.update L k (a :: L k) k').Nodup := by
  by_cases hk : k' = k
  · subst hk
    rw [Function.update_self]
    exact List.nodup_cons.2 ⟨ha, hnodup k'⟩
  · rw [Function.update_of_ne hk]
    exact hnodup k'

/-- A new node becomes the first one of a chain. -/
theorem Chains.push (h : Chains next head key L) {a : N} (ha : key a = none) (k : K) :
    Chains (Function.update next a (head k)) (Function.update head k (some a)) (Function.update key a (some k))
      (Function.update L k (a :: L k)) where
  seg := by
    intro k'
    by_cases hk : k' = k
    · subst hk
      rw [Function.update_self, Function.update_self, Seg, Function.update_self]
      exact ⟨rfl, (h.seg k').update (h.not_mem ha k') _⟩
    · rw [Function.update_of_ne hk, Function.update_of_ne hk]
      exact (h.seg k').update (h.not_mem ha k') _
  nodup := nodup_push h.nodup (h.not_mem ha k)
  mem := mem_push h.mem ha k

/-- The first node of a chain that meets `hit` is taken out. Only the pointer that led to it
changes. -/
theorem Chains.unlink (h : Chains next head key L) {hit : N → Bool} {k : K}
    (hmem : ∃ a, key a = some k ∧ hit a = true) {fuel : ℕ} (hfuel : (L k).length ≤ fuel) :
    ∃ a next' head', key a = some k ∧ hit a = true ∧
      Lib.unlink next hit fuel (head k) = some (next', head') ∧
      Chains next' (Function.update head k head') (Function.update key a none)
        (Function.update L k ((L k).eraseP hit)) ∧
      ∀ c, hit c = true → next' c = next c := by
  obtain ⟨a₀, ha₀, hhit₀⟩ := hmem
  obtain ⟨a, l₁, l₂, hl₁, ha, hL, herase⟩ := List.exists_of_eraseP ((h.mem k a₀).2 ha₀) hhit₀
  have hl₁' : ∀ b ∈ l₁, hit b = false := fun b hb => by simpa using hl₁ b hb
  have hseg := h.seg k
  have hnodup := h.nodup k
  rw [hL] at hseg hnodup hfuel
  have hkey : key a = some k := (h.mem k a).1 (by rw [hL]; simp)
  have hfind : findNode next hit fuel none (head k) = some (l₁.getLast?.or none, a) :=
    findNode_seg hseg hl₁' ha (by rw [List.length_append, List.length_cons] at hfuel; omega)
  have hnodup' : ∀ k', (Function.update L k ((L k).eraseP hit) k').Nodup := by
    intro k'
    by_cases hk : k' = k
    · subst hk
      rw [Function.update_self]
      exact (h.nodup k').sublist List.eraseP_sublist
    · rw [Function.update_of_ne hk]
      exact h.nodup k'
  have hmem' : ∀ k' b, b ∈ Function.update L k ((L k).eraseP hit) k' ↔ Function.update key a none b = some k' := by
    intro k' b
    have hmiddle := List.nodup_middle.1 hnodup
    by_cases hb : b = a
    · subst hb
      rw [Function.update_self]
      by_cases hk : k' = k
      · subst hk
        rw [Function.update_self, herase]
        simpa using (List.nodup_cons.1 hmiddle).1
      · simp [hk, h.mem, hkey, Ne.symm hk]
    · rw [Function.update_of_ne hb, ← h.mem]
      by_cases hk : k' = k
      · subst hk
        rw [Function.update_self, herase, hL]
        simp [hb]
      · rw [Function.update_of_ne hk]
  rcases List.eq_nil_or_concat l₁ with rfl | ⟨l, b, rfl⟩
  · -- the head pointer leads to the node
    refine ⟨a, next, next a, hkey, ha, by rw [Lib.unlink, hfind]; rfl, ⟨fun k' => ?_, hnodup', hmem'⟩, fun c _ => rfl⟩
    by_cases hk : k' = k
    · subst hk
      rw [Function.update_self, Function.update_self, herase]
      exact hseg.2
    · rw [Function.update_of_ne hk, Function.update_of_ne hk]
      exact h.seg k'
  · rw [List.concat_eq_append] at hL hseg hnodup hfind herase hl₁'
    rw [List.append_assoc, List.singleton_append] at hseg hnodup hL
    have hb : key b = some k := (h.mem k b).1 (by rw [hL]; simp)
    rw [List.getLast?_append, List.getLast?_singleton, Option.some_or, Option.some_or] at hfind
    refine ⟨a, Function.update next b (next a), head k, hkey, ha, by rw [Lib.unlink, hfind],
      ⟨fun k' => ?_, hnodup', hmem'⟩, fun c hc => ?_⟩
    · by_cases hk : k' = k
      · subst hk
        rw [Function.update_self, Function.update_self, herase, List.append_assoc, List.singleton_append]
        exact hseg.remove hnodup
      · rw [Function.update_of_ne hk, Function.update_of_ne hk]
        refine (h.seg k').update ?_ _
        rw [h.mem, hb, Option.some.injEq]
        exact Ne.symm hk
    · apply Function.update_of_ne
      rintro rfl
      rw [hl₁' c (by simp)] at hc
      exact absurd hc (by decide)

omit [DecidableEq N] [DecidableEq K] in
/-- The head of a chain leads to a node of its key. -/
theorem Chains.key_head (h : Chains next head key L) {k : K} {a : N} (hhead : head k = some a) : key a = some k := by
  have hfirst := (h.seg k).head?_eq
  rw [hhead] at hfirst
  exact (h.mem k a).1 (List.mem_of_mem_head? hfirst.symm)

/-- The first node of a chain is taken out, and no pointer changes but that to it. -/
theorem Chains.pop (h : Chains next head key L) {k : K} {a : N} (hhead : head k = some a) :
    Chains next (Function.update head k (next a)) (Function.update key a none)
      (Function.update L k ((L k).eraseP (· == a))) := by
  have hmem : ∃ b, key b = some k ∧ (b == a) = true := ⟨a, h.key_head hhead, beq_self_eq_true a⟩
  have hfind : Lib.unlink next (· == a) ((L k).length + 1) (head k) = some (next, next a) := by
    rw [hhead]
    simp [Lib.unlink, findNode]
  obtain ⟨a', next', head', -, hhit, hunlink, hchains, -⟩ :=
    h.unlink hmem (Nat.le_succ (L k).length)
  rw [hfind, Option.some.injEq, Prod.mk.injEq] at hunlink
  obtain ⟨rfl, rfl⟩ := hunlink
  rw [beq_iff_eq] at hhit
  exact hhit ▸ hchains

end Chains

/-! ### Rings -/

/-- A family of rings, each of which goes through its sentinel. A node that has a key is in
the ring of its key. -/
structure Rings (next : N → Option N) (sentinel : K → N) (owner : K → Prop) (key : N → Option K)
    (L : K → List N) : Prop where
  seg : ∀ k, owner k → Seg next (next (sentinel k)) (L k) (some (sentinel k))
  nodup : ∀ k, (L k).Nodup
  mem : ∀ k a, a ∈ L k ↔ key a = some k
  owned : ∀ a k, key a = some k → owner k
  proper : ∀ k, key (sentinel k) = none

section Rings

variable [DecidableEq N] [DecidableEq K] {next : N → Option N} {sentinel : K → N} {owner : K → Prop}
  {key : N → Option K} {L : K → List N}

omit [DecidableEq N] [DecidableEq K] in
theorem Rings.not_mem (h : Rings next sentinel owner key L) {a : N} (ha : key a = none) (k : K) : a ∉ L k := by
  rw [h.mem, ha]
  simp

omit [DecidableEq N] [DecidableEq K] in
theorem Rings.ne_sentinel (h : Rings next sentinel owner key L) {a : N} {k : K} (ha : key a = some k) (k' : K) :
    a ≠ sentinel k' := by
  rintro rfl
  rw [h.proper] at ha
  exact absurd ha (by simp)

omit [DecidableEq N] [DecidableEq K] in
/-- A node of a ring has a successor. -/
theorem Rings.next_ne_none (h : Rings next sentinel owner key L) {a : N} {k : K} (ha : key a = some k) :
    next a ≠ none :=
  (h.seg k (h.owned a k ha)).next_ne_none.2 a ((h.mem k a).2 ha)

omit [DecidableEq N] [DecidableEq K] in
/-- Rings depend on the pointers of their nodes and sentinels only, and an owner without
nodes is added by letting its sentinel point to itself. -/
theorem Rings.extend (h : Rings next sentinel owner key L) {next' : N → Option N} {owner' : K → Prop}
    (hnode : ∀ a k, key a = some k → next' a = next a)
    (hsent : ∀ k, owner k → next' (sentinel k) = next (sentinel k))
    (hnew : ∀ k, owner' k → owner k ∨ next' (sentinel k) = some (sentinel k)) (hold : ∀ k, owner k → owner' k) :
    Rings next' sentinel owner' key L := by
  refine ⟨fun k hk => ?_, h.nodup, h.mem, fun a k ha => hold k (h.owned a k ha), h.proper⟩
  by_cases howner : owner k
  · rw [hsent k howner]
    exact (h.seg k howner).congr fun a ha => hnode a k ((h.mem k a).1 ha)
  · have hnil : L k = [] :=
      List.eq_nil_iff_forall_not_mem.2 fun a ha => howner (h.owned a k ((h.mem k a).1 ha))
    rw [hnil]
    exact (hnew k hk).resolve_left howner

omit [DecidableEq N] in
/-- A ring is given up, whatever becomes of its pointers. -/
theorem Rings.drop (h : Rings next sentinel owner key L) (hinj : Function.Injective sentinel) {k : K}
    {next' : N → Option N} (hnext : ∀ a, a ∉ L k → a ≠ sentinel k → next' a = next a) :
    Rings next' sentinel (fun k' => owner k' ∧ k' ≠ k) (fun a => if key a = some k then none else key a)
      (Function.update L k []) := by
  have hother : ∀ k' ≠ k, ∀ a, key a = some k' ∨ a = sentinel k' → next' a = next a := by
    intro k' hk a ha
    have hnot : a ∉ L k := by
      rw [h.mem]
      rcases ha with ha | rfl
      · rw [ha, Option.some.injEq]
        exact hk
      · rw [h.proper]
        simp
    have hne : a ≠ sentinel k := by
      rcases ha with ha | rfl
      · exact h.ne_sentinel ha k
      · exact hinj.ne hk
    exact hnext a hnot hne
  refine ⟨fun k' hk => ?_, fun k' => ?_, fun k' a => ?_, fun a k' ha => ?_, fun k' => ?_⟩
  · rw [Function.update_of_ne hk.2, hother k' hk.2 _ (.inr rfl)]
    exact (h.seg k' hk.1).congr fun a ha => hother k' hk.2 a (.inl ((h.mem k' a).1 ha))
  · by_cases hk : k' = k
    · subst hk
      rw [Function.update_self]
      exact List.nodup_nil
    · rw [Function.update_of_ne hk]
      exact h.nodup k'
  · by_cases hk : k' = k
    · subst hk
      rw [Function.update_self]
      by_cases ha : key a = some k'
      · simp [ha]
      · simp [ha]
    · rw [Function.update_of_ne hk, h.mem]
      by_cases ha : key a = some k
      · simp [ha, Ne.symm hk]
      · rw [if_neg ha]
  · split at ha
    · exact absurd ha (by simp)
    · rename_i hne
      refine ⟨h.owned a k' ha, ?_⟩
      rintro rfl
      exact hne ha
  · rw [h.proper]
    simp

/-- A node goes into a ring, after the sentinel. -/
theorem Rings.push (h : Rings next sentinel owner key L) (hinj : Function.Injective sentinel) {a : N}
    (ha : key a = none) (hproper : ∀ k, a ≠ sentinel k) {k : K} (hk : owner k) :
    Rings (Function.update (Function.update next a (next (sentinel k))) (sentinel k) (some a)) sentinel owner
      (Function.update key a (some k)) (Function.update L k (a :: L k)) := by
  have hseg : ∀ k' {p e : Option N}, Seg next p (L k') e →
      Seg (Function.update (Function.update next a (next (sentinel k))) (sentinel k) (some a)) p (L k') e :=
    fun k' _ _ hs => (hs.update (h.not_mem ha k') _).update (h.not_mem (h.proper k) k') _
  refine ⟨fun k' hk' => ?_, nodup_push h.nodup (h.not_mem ha k), mem_push h.mem ha k, fun b k' hb => ?_, fun k' => ?_⟩
  · by_cases hkk : k' = k
    · subst hkk
      rw [Function.update_self, Function.update_self, Seg, Function.update_of_ne (hproper k'), Function.update_self]
      exact ⟨rfl, hseg k' (h.seg k' hk')⟩
    · rw [Function.update_of_ne hkk, Function.update_of_ne (hinj.ne hkk), Function.update_of_ne (hproper k').symm]
      exact hseg k' (h.seg k' hk')
  · by_cases hba : b = a
    · subst hba
      rw [Function.update_self, Option.some.injEq] at hb
      exact hb ▸ hk
    · rw [Function.update_of_ne hba] at hb
      exact h.owned b k' hb
  · rw [Function.update_of_ne (hproper k').symm]
    exact h.proper k'

omit [DecidableEq K] in
/-- The walk around a ring ends at the node before the one it started from, and setting the
pointer there closes the ring without the node. -/
theorem Rings.walk (h : Rings next sentinel owner key L) {a : N} {k : K} (ha : key a = some k) {fuel : ℕ}
    (hfuel : (L k).length + 1 ≤ fuel) :
    ∃ b, findNode next (· == a) fuel (some a) (next a) = some (some b, a) ∧ (b = sentinel k ∨ key b = some k) ∧
      b ≠ a ∧ Seg (Function.update next b (next a)) (Function.update next b (next a) (sentinel k))
        ((L k).erase a) (some (sentinel k)) := by
  obtain ⟨l₁, l₂, hL⟩ := List.append_of_mem ((h.mem k a).2 ha)
  have hseg := h.seg k (h.owned a k ha)
  have hnodup := h.nodup k
  have hsent : sentinel k ∉ L k := h.not_mem (h.proper k) k
  rw [hL] at hseg hnodup hsent hfuel
  have hdisj := List.disjoint_of_nodup_append hnodup
  have herase : (L k).erase a = l₁ ++ l₂ := by
    rw [hL, List.erase_append_right _ fun hmem => hdisj hmem List.mem_cons_self, List.erase_cons_head]
  obtain ⟨q, h₁, rfl, h₂⟩ := seg_append.1 hseg
  have hwalk : Seg next (next a) ((l₂ ++ sentinel k :: l₁) ++ a :: []) (next a) :=
    seg_append.2 ⟨some a, seg_append.2 ⟨some (sentinel k), h₂, rfl, h₁⟩, rfl, rfl⟩
  have hne : ∀ b ∈ l₂ ++ sentinel k :: l₁, (b == a) = false := by
    intro b hb
    rw [beq_eq_false_iff_ne]
    rintro rfl
    rcases List.mem_append.1 hb with hb | hb
    · exact (List.nodup_cons.1 (List.nodup_append.1 hnodup).2.1).1 hb
    · rcases List.mem_cons.1 hb with hb | hb
      · exact h.ne_sentinel ha k hb
      · exact hdisj hb List.mem_cons_self
  have hfind : findNode next (· == a) fuel (some a) (next a) =
      some ((l₂ ++ sentinel k :: l₁).getLast?.or (some a), a) :=
    findNode_seg hwalk hne (beq_self_eq_true a) (by
      simp only [List.length_append, List.length_cons] at hfuel ⊢
      omega)
  rw [herase]
  rcases List.eq_nil_or_concat l₁ with rfl | ⟨l, b, rfl⟩
  · refine ⟨sentinel k, by rw [hfind]; simp, .inl rfl, (h.ne_sentinel ha k).symm, ?_⟩
    rw [Function.update_self]
    exact h₂.update (fun hmem => hsent (by simp [hmem])) _
  · rw [List.concat_eq_append] at *
    rw [List.append_assoc, List.singleton_append] at hseg hnodup hL
    have hb : key b = some k := (h.mem k b).1 (by rw [hL]; simp)
    have hlast : (l₂ ++ sentinel k :: (l ++ [b])).getLast? = some b := by
      rw [← List.cons_append, ← List.append_assoc, List.getLast?_append, List.getLast?_singleton, Option.some_or]
    refine ⟨b, by rw [hfind, hlast, Option.some_or], .inr hb, ?_, ?_⟩
    · simpa using hne b (by simp)
    · rw [Function.update_of_ne (h.ne_sentinel hb k).symm, List.append_assoc, List.singleton_append]
      exact hseg.remove hnodup

omit [DecidableEq K] in
/-- A node is taken out of its ring, if it is in one. -/
theorem Rings.unlink (h : Rings next sentinel owner key L) (hinj : Function.Injective sentinel) {a : N}
    (hnone : next a = none ↔ key a = none) (hproper : ∀ k, a ≠ sentinel k) {fuel : ℕ}
    (hfuel : ∀ k, (L k).length + 1 ≤ fuel) :
    ∃ next', unlinkRing next fuel a = some next' ∧
      Rings next' sentinel owner (Function.update key a none) (fun k => (L k).filter (· ≠ a)) ∧
      next' a = none ∧ ∀ c ≠ a, (next' c = none ↔ next c = none) := by
  have herase : ∀ k, (L k).filter (· ≠ a) = (L k).erase a := fun k => by
    rw [(h.nodup k).erase_eq_filter]
    apply List.filter_congr
    intro b _
    by_cases hb : b = a
    · simp [hb]
    · simp [hb]
  have hmem : ∀ k b, b ∈ (L k).filter (· ≠ a) ↔ Function.update key a none b = some k := by
    intro k b
    rw [List.mem_filter, h.mem]
    by_cases hb : b = a
    · subst hb
      simp
    · simp [hb]
  have howned : ∀ b k, Function.update key a none b = some k → owner k := fun b k hb =>
    h.owned b k ((h.mem k b).1 (List.mem_of_mem_filter ((hmem k b).2 hb)))
  have hsentinel : ∀ k, Function.update key a none (sentinel k) = none := fun k => by
    rw [Function.update_of_ne (hproper k).symm, h.proper]
  have hnodup : ∀ k, ((L k).filter (· ≠ a)).Nodup := fun k => (h.nodup k).filter _
  cases hkey : key a with
  | none =>
    have hnext := hnone.2 hkey
    refine ⟨next, by rw [unlinkRing, hnext], ⟨fun k hk => ?_, hnodup, hmem, howned, hsentinel⟩, hnext, fun c _ => Iff.rfl⟩
    rw [herase, List.erase_of_not_mem (h.not_mem hkey k)]
    exact h.seg k hk
  | some k =>
    obtain ⟨b, hfind, hb, hba, hseg⟩ := h.walk hkey (hfuel k)
    obtain ⟨p, hnext⟩ := Option.ne_none_iff_exists'.1 (h.next_ne_none hkey)
    rw [hnext] at hfind hseg
    refine ⟨_, by rw [unlinkRing, hnext]; dsimp only; rw [hfind], ⟨fun k' hk' => ?_, hnodup, hmem, howned, hsentinel⟩,
      Function.update_self _ _ _, fun c hc => ?_⟩
    · have hout : a ∉ (L k').erase a := fun hmem => ((h.nodup k').mem_erase_iff.1 hmem).1 rfl
      rw [Function.update_of_ne (hproper k').symm, herase]
      refine Seg.update ?_ hout _
      by_cases hkk : k' = k
      · subst hkk
        exact hseg
      · have hsent : sentinel k' ≠ b := by
          rcases hb with rfl | hb
          · exact hinj.ne hkk
          · exact (h.ne_sentinel hb k').symm
        have hb' : b ∉ L k' := by
          rw [h.mem]
          rcases hb with rfl | hb
          · rw [h.proper]
            simp
          · rw [hb, Option.some.injEq]
            exact Ne.symm hkk
        have ha' : a ∉ L k' := by
          rw [h.mem, hkey, Option.some.injEq]
          exact Ne.symm hkk
        rw [Function.update_of_ne hsent, List.erase_of_not_mem ha']
        exact (h.seg k' hk').update hb' _
    · rw [Function.update_of_ne hc]
      by_cases hcb : c = b
      · subst hcb
        have hne : next c ≠ none := by
          rcases hb with rfl | hb
          · exact (h.seg k (h.owned a k hkey)).next_ne_none.1
          · exact h.next_ne_none hb
        simp [hne]
      · rw [Function.update_of_ne hcb]

omit [DecidableEq N] [DecidableEq K] in
/-- The walk from a node of a ring comes to the sentinel. -/
theorem Rings.find_sentinel (h : Rings next sentinel owner key L) {a : N} {k : K} (ha : key a = some k) {hit : N → Bool}
    (hsent : hit (sentinel k) = true) (hnode : ∀ b, key b ≠ none → hit b = false) {fuel : ℕ} (hfuel : (L k).length + 1 ≤ fuel) :
    ∃ prev, findNode next hit fuel none (next a) = some (prev, sentinel k) := by
  obtain ⟨l₁, l₂, hL⟩ := List.append_of_mem ((h.mem k a).2 ha)
  have hseg := h.seg k (h.owned a k ha)
  rw [hL] at hseg
  obtain ⟨-, -, -, h₂⟩ := seg_append.1 hseg
  have hring : Seg next (next a) (l₂ ++ sentinel k :: []) (next (sentinel k)) := seg_append.2 ⟨some (sentinel k), h₂, rfl, rfl⟩
  have hl₂ : ∀ b ∈ l₂, hit b = false := by
    intro b hb
    have hkey : key b = some k := (h.mem k b).1 (by rw [hL]; simp [hb])
    exact hnode b (by simp [hkey])
  rw [hL, List.length_append, List.length_cons] at hfuel
  exact ⟨_, findNode_seg hring hl₂ hsent (by omega)⟩

omit [DecidableEq K] in
/-- A node is found before the same pointer from the sentinel as from itself. -/
theorem Rings.unlinkFrom_eq (h : Rings next sentinel owner key L) {a : N} {k : K} (ha : key a = some k) {fuel : ℕ}
    (hfuel : (L k).length + 1 ≤ fuel) : unlinkFrom next fuel (sentinel k) a = unlinkRing next fuel a := by
  obtain ⟨l₁, l₂, hL⟩ := List.append_of_mem ((h.mem k a).2 ha)
  have hseg := h.seg k (h.owned a k ha)
  have hnodup := h.nodup k
  rw [hL] at hseg hnodup hfuel
  rw [List.length_append, List.length_cons] at hfuel
  obtain ⟨q, h₁, rfl, h₂⟩ := seg_append.1 hseg
  have hdisjoint := List.disjoint_of_nodup_append hnodup
  have hl₁ : ∀ b ∈ l₁, (b == a) = false := fun b hb => by
    rw [beq_eq_false_iff_ne]
    rintro rfl
    exact hdisjoint hb List.mem_cons_self
  have hl₂ : ∀ b ∈ l₂ ++ sentinel k :: l₁, (b == a) = false := by
    intro b hb
    rcases List.mem_append.1 hb with hb | hb
    · rw [beq_eq_false_iff_ne]
      rintro rfl
      exact (List.nodup_cons.1 (List.nodup_append.1 hnodup).2.1).1 hb
    · rcases List.mem_cons.1 hb with rfl | hb
      · rw [beq_eq_false_iff_ne]
        exact (h.ne_sentinel ha k).symm
      · exact hl₁ b hb
  have hwalk : Seg next (next a) ((l₂ ++ sentinel k :: l₁) ++ a :: []) (next a) :=
    seg_append.2 ⟨some a, seg_append.2 ⟨some (sentinel k), h₂, rfl, h₁⟩, rfl, rfl⟩
  have hself : findNode next (· == a) fuel (some a) (next a) = some ((l₂ ++ sentinel k :: l₁).getLast?.or (some a), a) :=
    findNode_seg hwalk hl₂ (beq_self_eq_true a) (by rw [List.length_append, List.length_cons]; omega)
  have hfrom : findNode next (· == a) fuel (some (sentinel k)) (next (sentinel k)) =
      some (l₁.getLast?.or (some (sentinel k)), a) := findNode_seg hseg hl₁ (beq_self_eq_true a) (by omega)
  obtain ⟨p, hp⟩ := Option.ne_none_iff_exists'.1 (h.next_ne_none ha)
  have hlast : (l₂ ++ sentinel k :: l₁).getLast?.or (some a) = l₁.getLast?.or (some (sentinel k)) := by
    rw [List.getLast?_append, List.getLast?_cons]
    cases l₁.getLast? with
    | none => rfl
    | some b => rfl
  rw [hlast] at hself
  unfold unlinkFrom unlinkRing
  rw [hfrom]
  rw [hp] at hself ⊢
  dsimp only
  rw [hself]

end Rings

/-! ### Lists without repetitions -/

/-- A sublist is known by its members. -/
theorem eq_filter_of_sublist {l' l : List N} (h : l'.Sublist l) (hl : l.Nodup) {q : N → Bool}
    (hq : ∀ a ∈ l, (a ∈ l' ↔ q a = true)) : l' = l.filter q := by
  induction h with
  | slnil => rfl
  | @cons l₁ l₂ a h ih =>
    obtain ⟨ha, hl⟩ := List.nodup_cons.1 hl
    have hqa : ¬ q a = true := fun hqa => ha (h.subset ((hq a List.mem_cons_self).2 hqa))
    rw [List.filter_cons_of_neg hqa]
    exact ih hl fun b hb => hq b (List.mem_cons_of_mem a hb)
  | @cons_cons l₁ l₂ a h ih =>
    obtain ⟨ha, hl⟩ := List.nodup_cons.1 hl
    rw [List.filter_cons_of_pos ((hq a List.mem_cons_self).1 List.mem_cons_self)]
    congr 1
    refine ih hl fun b hb => ?_
    rw [← hq b (List.mem_cons_of_mem a hb), List.mem_cons, or_iff_right]
    rintro rfl
    exact ha hb

/-- A list without repetitions over a set of nodes is no longer than the set. -/
theorem length_le_card [DecidableEq N] {l : List N} (hl : l.Nodup) {s : Finset N} (hs : ∀ a ∈ l, a ∈ s) :
    l.length ≤ s.card := by
  rw [← List.toFinset_card_of_nodup hl]
  exact Finset.card_le_card fun a ha => hs a (List.mem_toFinset.1 ha)

end Ar7Qemu.Lib
