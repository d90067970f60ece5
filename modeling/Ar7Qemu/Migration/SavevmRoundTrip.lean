import Ar7Qemu.Migration.Savevm
import Mathlib.Data.List.Induction
import Mathlib.Data.List.TakeWhile

/-! The round trip of the VM state: `qemu_loadvm_state` on a saved stream calls the
handlers that saved, in stream order, each with its own data and version. -/

namespace Ar7Qemu.Migration

open Lib

/-! ### Instances -/

theorem toInt_succ {x : CInt} (h : x ≠ BitVec.intMax 32) : (x + 1).toInt = x.toInt + 1 := by
  have hx : x.toNat ≠ 2 ^ 31 - 1 := by
    intro hn
    apply h
    apply BitVec.eq_of_toNat_eq
    rw [hn]
    decide
  have hlt := x.isLt
  rw [BitVec.toInt_eq_toNat_cond, BitVec.toInt_eq_toNat_cond, BitVec.toNat_add,
    show (1 : CInt).toNat = 1 from rfl]
  split <;> split <;> omega

/-- The walk over the list ends above every instance of the name. -/
theorem instance_gt {name : CString} : ∀ (entries : List SaveStateEntry) (id : CInt),
    (∀ se ∈ entries, se.idstr = name → se.instanceId ≠ BitVec.intMax 32) →
    let id' := entries.foldl (fun id se =>
      if (-1 : CInt) = -1 ∧ name = se.idstr ∧ id.sle se.instanceId then se.instanceId + 1 else id) id
    id.toInt ≤ id'.toInt ∧ ∀ se ∈ entries, se.idstr = name → se.instanceId.toInt < id'.toInt
  | [], id, _ => ⟨Int.le_refl _, fun _ h => absurd h List.not_mem_nil⟩
  | e :: entries, id, h => by
    rw [List.foldl_cons]
    have htail : ∀ se ∈ entries, se.idstr = name → se.instanceId ≠ BitVec.intMax 32 :=
      fun se hse => h se (List.mem_cons_of_mem _ hse)
    by_cases hname : name = e.idstr
    · by_cases hle : id.sle e.instanceId = true
      · have hsucc := toInt_succ (h e List.mem_cons_self hname.symm)
        have hle' : id.toInt ≤ e.instanceId.toInt := by simpa [BitVec.sle] using hle
        rw [if_pos ⟨rfl, hname, hle⟩]
        obtain ⟨hid, hall⟩ := instance_gt entries (e.instanceId + 1) htail
        refine ⟨by omega, fun se hse hse' => ?_⟩
        rcases List.mem_cons.1 hse with rfl | hse
        · omega
        · exact hall se hse hse'
      · have hlt : e.instanceId.toInt < id.toInt := by simpa [BitVec.sle] using hle
        rw [if_neg fun hc => hle hc.2.2]
        obtain ⟨hid, hall⟩ := instance_gt entries id htail
        refine ⟨hid, fun se hse hse' => ?_⟩
        rcases List.mem_cons.1 hse with rfl | hse
        · omega
        · exact hall se hse hse'
    · rw [if_neg fun hc => hname hc.2.1]
      obtain ⟨hid, hall⟩ := instance_gt entries id htail
      refine ⟨hid, fun se hse hse' => ?_⟩
      rcases List.mem_cons.1 hse with rfl | hse
      · exact absurd hse'.symm hname
      · exact hall se hse hse'

theorem fresh_registerSavevmLive {r : Registry} {idstr : CString} {live : Option (ℕ → Bool × Stream)}
    {save : Option Stream} {load : CInt → Stream → ℕ} {version : CInt} {op : ℕ}
    (h : ∀ se ∈ r.entries, se.idstr = pstrcpy 256 idstr → se.instanceId ≠ BitVec.intMax 32) :
    ∀ se ∈ r.entries, se.idstr = pstrcpy 256 idstr →
      ∀ new ∈ (registerSavevmLive idstr (-1) version live save load op r).entries.getLast?,
        se.instanceId ≠ new.instanceId := by
  intro se hse hname new hnew
  rw [registerSavevmLive, List.getLast?_concat, Option.mem_some_iff] at hnew
  obtain ⟨-, hgt⟩ := instance_gt r.entries 0 h
  have hlt := hgt se hse hname
  subst hnew
  intro heq
  rw [heq] at hlt
  exact Int.lt_irrefl _ hlt

theorem fresh_of_room {r : Registry} {op : RegistryOp} (h : Room r op) : Fresh r op := by
  intro name hreq se hse hname
  cases op with
  | registerSavevmLive idstr instanceId version live save load op =>
    obtain ⟨rfl, rfl⟩ : pstrcpy 256 idstr = name ∧ instanceId = -1 := by
      simpa [RegistryOp.requested] using hreq
    exact fresh_registerSavevmLive (h _ hreq) se hse hname
  | registerSavevm idstr instanceId version save load op =>
    obtain ⟨rfl, rfl⟩ : pstrcpy 256 idstr = name ∧ instanceId = -1 := by
      simpa [RegistryOp.requested] using hreq
    exact fresh_registerSavevmLive (h _ hreq) se hse hname
  | unregisterSavevm idstr op => simp [RegistryOp.requested] at hreq

/-- Names of registered entries fit into their length byte. -/
def NamesFit (r : Registry) : Prop := ∀ se ∈ r.entries, se.idstr.bytes.length < 256

theorem namesFit_apply {r : Registry} (h : NamesFit r) (op : RegistryOp) : NamesFit (r.apply op) := by
  have hlive : ∀ idstr i v l s ld o,
      NamesFit (registerSavevmLive idstr i v l s ld o r) := by
    intro idstr i v l s ld o se hse
    rcases List.mem_append.1 hse with hse | hse
    · exact h se hse
    · rw [List.mem_singleton.1 hse]
      show (idstr.bytes.take 255).length < 256
      rw [List.length_take]
      omega
  cases op with
  | registerSavevmLive idstr i v l s ld o => exact hlive idstr i v l s ld o
  | registerSavevm idstr i v s ld o => exact hlive idstr i v none s ld o
  | unregisterSavevm idstr o => exact fun se hse => h se (List.mem_of_mem_filter hse)

/-! ### Sections -/

section Sections

variable {entries : List SaveStateEntry} {les les' les'' : List LoadStateEntry} {out out' : Stream}
  {calls calls' : List LoadCall} {k k' : ℕ}

/-- Loading `out` takes `k` sections, makes these calls and leaves these load entries. -/
def Reads (entries : List SaveStateEntry) (out : Stream) (k : ℕ) (les les' : List LoadStateEntry)
    (calls : List LoadCall) : Prop :=
  k ≤ out.length ∧ ∀ n f, loadLoop entries (n + k) les (out ++ f) =
    (loadLoop entries n les' f).map fun r => (r.1, calls ++ r.2)

theorem reads_nil : Reads entries [] 0 les les [] :=
  ⟨le_rfl, fun n f => by simp⟩

theorem Reads.append (h : Reads entries out k les les' calls)
    (h' : Reads entries out' k' les' les'' calls') :
    Reads entries (out ++ out') (k + k') les les'' (calls ++ calls') := by
  refine ⟨by rw [List.length_append]; exact Nat.add_le_add h.1 h'.1, fun n f => ?_⟩
  rw [List.append_assoc, ← Nat.add_assoc, Nat.add_right_comm, h.2, h'.2, Option.map_map]
  congr 1
  funext r
  simp

theorem find?_eq_some_of_unique {α : Type*} {l : List α} {P : α → Bool} {a : α} (hmem : a ∈ l)
    (ha : P a = true) (huniq : ∀ b ∈ l, P b = true → b = a) : l.find? P = some a := by
  rcases hf : l.find? P with _ | b
  · exact absurd ha (by simpa using List.find?_eq_none.1 hf a hmem)
  · rw [huniq b (List.mem_of_find?_eq_some hf) (List.find?_some hf)]

def PairsUnique (entries : List SaveStateEntry) : Prop :=
  (entries.map fun se => (se.idstr, se.instanceId)).Nodup

theorem findSe_eq_some (h : PairsUnique entries) {se : SaveStateEntry} (hse : se ∈ entries) :
    findSe entries se.idstr.bytes se.instanceId = some se := by
  have hname : se.idstr.bytes.takeWhile (· ≠ 0) = se.idstr.bytes := by
    apply List.takeWhile_eq_self_iff.2
    intro b hb
    simp only [ne_eq, decide_not, Bool.not_eq_true', decide_eq_false_iff_not]
    rintro rfl
    exact se.idstr.noNul hb
  apply find?_eq_some_of_unique hse
  · exact decide_eq_true ⟨hname.symm, rfl⟩
  · intro b hb hP
    simp only [hname, decide_eq_true_eq] at hP
    apply List.inj_on_of_nodup_map h hb hse
    rw [Prod.mk.injEq]
    refine ⟨?_, hP.2.symm⟩
    cases hb' : b.idstr
    cases hs' : se.idstr
    simp only [hb', hs'] at hP
    simp [hP.1]

def ReadsExactly (se : SaveStateEntry) (data : Stream) : Prop :=
  ∀ f, se.loadState se.versionId (data ++ f) = data.length

theorem callLoad_exact {se : SaveStateEntry} {data : Stream} (h : ReadsExactly se data) (f : Stream)
    (loop : Stream → Option (ℤ × List LoadCall)) :
    callLoad se se.versionId (data ++ f) loop =
      (loop f).map fun r => (r.1, [⟨se, se.versionId, data⟩] ++ r.2) := by
  rw [callLoad, h f, List.drop_left, List.take_left]
  rfl

theorem reads_named {se : SaveStateEntry} (hse : se ∈ entries) (hpairs : PairsUnique entries)
    (hlen : se.idstr.bytes.length < 256) {data : Stream} (hdata : ReadsExactly se data) {type : ℕ}
    (htype : type = qemuVmSectionStart ∨ type = qemuVmSectionFull) :
    Reads entries (putSectionHeader type se ++ putSectionName se ++ data) 1 les
      (⟨se, se.sectionId, se.versionId⟩ :: les) [⟨se, se.versionId, data⟩] := by
  have htoNat : (UInt8.ofNat type).toNat = type := by
    rcases htype with rfl | rfl <;> rfl
  have hne : type ≠ qemuVmEof := by
    rcases htype with rfl | rfl <;> decide
  have hlen' : (UInt8.ofNat se.idstr.bytes.length).toNat = se.idstr.bytes.length := by
    rw [UInt8.toNat_ofNat', Nat.mod_eq_of_lt (by omega)]
  refine ⟨by simp [putSectionHeader, putByte], fun n f => ?_⟩
  rw [loadLoop]
  simp only [putSectionHeader, putSectionName, List.append_assoc, getByte_putByte, getBe32_putBe32,
    htoNat, hlen', getBuffer_append rfl]
  rw [if_neg hne, if_pos htype]
  simp only [Nat.mod_eq_of_lt (BitVec.isLt _), BitVec.ofNat_toNat, BitVec.setWidth_eq,
    findSe_eq_some hpairs hse]
  rw [if_neg (lt_irrefl _), callLoad_exact hdata]

theorem reads_numbered {se : SaveStateEntry} {data : Stream} (hdata : ReadsExactly se data)
    (hfind : (les.find? fun le => le.sectionId = se.sectionId) = some ⟨se, se.sectionId, se.versionId⟩)
    {type : ℕ} (htype : type = qemuVmSectionPart ∨ type = qemuVmSectionEnd) :
    Reads entries (putSectionHeader type se ++ data) 1 les les [⟨se, se.versionId, data⟩] := by
  have htoNat : (UInt8.ofNat type).toNat = type := by
    rcases htype with rfl | rfl <;> rfl
  have hne : type ≠ qemuVmEof := by
    rcases htype with rfl | rfl <;> decide
  have hnamed : ¬ (type = qemuVmSectionStart ∨ type = qemuVmSectionFull) := by
    rcases htype with rfl | rfl <;> decide
  refine ⟨by simp [putSectionHeader, putByte], fun n f => ?_⟩
  rw [loadLoop]
  simp only [putSectionHeader, List.append_assoc, getByte_putByte, getBe32_putBe32, htoNat]
  rw [if_neg hne, if_neg hnamed, if_pos htype]
  simp only [Nat.mod_eq_of_lt (BitVec.isLt _), BitVec.ofNat_toNat, BitVec.setWidth_eq, hfind]
  rw [callLoad_exact hdata]

/-! ### Passes over the registry -/

theorem reads_pass (out : SaveStateEntry → Stream) (calls : SaveStateEntry → List LoadCall) :
    ∀ (l : List SaveStateEntry), (∀ se ∈ l, ∃ k, Reads entries (out se) k les les (calls se)) →
    ∃ k, Reads entries (l.flatMap out) k les les (l.flatMap calls)
  | [], _ => ⟨0, reads_nil⟩
  | se :: l, h => by
    obtain ⟨k, hk⟩ := h se List.mem_cons_self
    obtain ⟨k', hk'⟩ := reads_pass out calls l fun se' hse' => h se' (List.mem_cons_of_mem _ hse')
    refine ⟨k + k', ?_⟩
    rw [List.flatMap_cons, List.flatMap_cons]
    exact hk.append hk'

/-- A pass in which every entry may add a load entry. -/
theorem reads_growing_pass (out : SaveStateEntry → Stream) (calls : SaveStateEntry → List LoadCall)
    (new : SaveStateEntry → List LoadStateEntry) : ∀ (l : List SaveStateEntry) (les : List LoadStateEntry),
    (∀ se ∈ l, ∀ les, ∃ k, Reads entries (out se) k les (new se ++ les) (calls se)) →
    ∃ k les', Reads entries (l.flatMap out) k les les' (l.flatMap calls) ∧
      ∀ le, le ∈ les' ↔ le ∈ les ∨ ∃ se ∈ l, le ∈ new se
  | [], les, _ => ⟨0, les, reads_nil, fun le => by simp⟩
  | se :: l, les, h => by
    obtain ⟨k, hk⟩ := h se List.mem_cons_self les
    obtain ⟨k', les', hk', hmem⟩ := reads_growing_pass out calls new l (new se ++ les)
      fun se' hse' => h se' (List.mem_cons_of_mem _ hse')
    refine ⟨k + k', les', ?_, fun le => ?_⟩
    · rw [List.flatMap_cons, List.flatMap_cons]
      exact hk.append hk'
    · rw [hmem, List.mem_append]
      simp only [List.mem_cons, exists_eq_or_imp]
      tauto

/-- The call that the `i`-th pass of the live handlers asks of an entry. -/
def liveCall (i : ℕ) (se : SaveStateEntry) : List LoadCall :=
  (se.saveLiveState.map fun save => ⟨se, se.versionId, (save i).2⟩).toList

def fullCall (se : SaveStateEntry) : List LoadCall :=
  (se.saveState.map fun data => ⟨se, se.versionId, data⟩).toList

/-- What a whole stream asks for, in stream order: every handler that saved, with its
version and its data. -/
def savedCalls (entries : List SaveStateEntry) (n : ℕ) : List LoadCall :=
  entries.flatMap (liveCall 0) ++ ((List.range n).flatMap fun i => entries.flatMap (liveCall (i + 1))) ++
    (entries.flatMap (liveCall (n + 1)) ++ entries.flatMap fullCall)

def LoadersExact (entries : List SaveStateEntry) : Prop :=
  ∀ se ∈ entries, (∀ save ∈ se.saveLiveState, ∀ i, ReadsExactly se (save i).2) ∧
    ∀ data ∈ se.saveState, ReadsExactly se data

def LiveIdsDistinct (entries : List SaveStateEntry) : Prop :=
  ((entries.filter fun se => se.saveLiveState.isSome).map SaveStateEntry.sectionId).Nodup

def liveEntry (se : SaveStateEntry) : List LoadStateEntry :=
  (se.saveLiveState.map fun _ => ⟨se, se.sectionId, se.versionId⟩).toList

def fullEntry (se : SaveStateEntry) : List LoadStateEntry :=
  (se.saveState.map fun _ => ⟨se, se.sectionId, se.versionId⟩).toList

section Passes

variable (hpairs : PairsUnique entries) (hfit : ∀ se ∈ entries, se.idstr.bytes.length < 256)
  (hexact : LoadersExact entries)

include hpairs hfit hexact in
theorem reads_begin : ∃ k les, Reads entries (entries.flatMap startSection) k [] les
      (entries.flatMap (liveCall 0)) ∧ ∀ le, le ∈ les ↔ ∃ se ∈ entries, le ∈ liveEntry se := by
  have hone : ∀ se ∈ entries, ∀ les, ∃ k,
      Reads entries (startSection se) k les (liveEntry se ++ les) (liveCall 0 se) := by
    intro se hse les
    rw [startSection, liveCall, liveEntry]
    rcases hlive : se.saveLiveState with _ | save
    · exact ⟨0, reads_nil⟩
    · exact ⟨1, reads_named hse hpairs (hfit se hse) ((hexact se hse).1 save hlive 0) (.inl rfl)⟩
  obtain ⟨k, les, hreads, hmem⟩ := reads_growing_pass startSection (liveCall 0) liveEntry entries [] hone
  exact ⟨k, les, hreads, fun le => by simpa using hmem le⟩

include hpairs hfit hexact in
theorem reads_full (les : List LoadStateEntry) :
    ∃ k les', Reads entries (entries.flatMap fullSection) k les les' (entries.flatMap fullCall) := by
  have hone : ∀ se ∈ entries, ∀ les, ∃ k,
      Reads entries (fullSection se) k les (fullEntry se ++ les) (fullCall se) := by
    intro se hse les
    rw [fullSection, fullCall, fullEntry]
    rcases hsave : se.saveState with _ | data
    · exact ⟨0, reads_nil⟩
    · exact ⟨1, reads_named hse hpairs (hfit se hse) ((hexact se hse).2 data hsave) (.inr rfl)⟩
  obtain ⟨k, les', hreads, -⟩ := reads_growing_pass fullSection fullCall fullEntry entries les hone
  exact ⟨k, les', hreads⟩

variable (hids : LiveIdsDistinct entries) (hles : ∀ le, le ∈ les ↔ ∃ se ∈ entries, le ∈ liveEntry se)

theorem mem_liveEntry {se : SaveStateEntry} {le : LoadStateEntry} :
    le ∈ liveEntry se ↔ se.saveLiveState.isSome ∧ le = ⟨se, se.sectionId, se.versionId⟩ := by
  rw [liveEntry]
  rcases se.saveLiveState with _ | save
  · simp
  · simp

include hids hles in
theorem find_liveEntry {se : SaveStateEntry} (hse : se ∈ entries) (hlive : se.saveLiveState.isSome) :
    (les.find? fun le => le.sectionId = se.sectionId) = some ⟨se, se.sectionId, se.versionId⟩ := by
  apply find?_eq_some_of_unique
  · exact (hles _).2 ⟨se, hse, mem_liveEntry.2 ⟨hlive, rfl⟩⟩
  · simp
  · intro le hle heq
    obtain ⟨se', hse', hle'⟩ := (hles le).1 hle
    obtain ⟨hlive', rfl⟩ := mem_liveEntry.1 hle'
    simp only [decide_eq_true_eq] at heq
    obtain rfl : se' = se := List.inj_on_of_nodup_map hids (List.mem_filter.2 ⟨hse', hlive'⟩)
      (List.mem_filter.2 ⟨hse, hlive⟩) heq
    rfl

include hexact hids hles in
theorem reads_live {type : ℕ} (htype : type = qemuVmSectionPart ∨ type = qemuVmSectionEnd) (i : ℕ) :
    ∃ k, Reads entries (entries.flatMap (liveSection type i)) k les les
      (entries.flatMap (liveCall i)) := by
  apply reads_pass
  intro se hse
  rw [liveSection, liveCall]
  rcases hlive : se.saveLiveState with _ | save
  · exact ⟨0, reads_nil⟩
  · exact ⟨1, reads_numbered ((hexact se hse).1 save hlive i)
      (find_liveEntry hids hles hse (by rw [hlive]; rfl)) htype⟩

include hexact hids hles in
theorem reads_iterations : ∀ n, ∃ k, Reads entries
    ((List.range n).flatMap fun i => (savevmStateIterate entries (i + 1)).2) k les les
    ((List.range n).flatMap fun i => entries.flatMap (liveCall (i + 1)))
  | 0 => ⟨0, reads_nil⟩
  | n + 1 => by
    obtain ⟨k, hk⟩ := reads_iterations n
    obtain ⟨k', hk'⟩ := reads_live hexact hids hles (.inl rfl) (n + 1)
    refine ⟨k + k', ?_⟩
    rw [List.range_succ, List.flatMap_append, List.flatMap_append, List.flatMap_singleton,
      List.flatMap_singleton]
    exact hk.append hk'

end Passes

theorem loadLoop_eof (n : ℕ) : loadLoop entries (n + 1) les (putByte qemuVmEof) = some (0, []) := by
  rw [loadLoop, ← List.append_nil (putByte _), getByte_putByte]
  exact if_pos rfl

theorem loadvmState_savevmStream (v2 : Stream → ℤ × List LoadCall) (hpairs : PairsUnique entries)
    (hfit : ∀ se ∈ entries, se.idstr.bytes.length < 256) (hexact : LoadersExact entries)
    (hids : LiveIdsDistinct entries) (n : ℕ) :
    loadvmState v2 entries (savevmStream entries n) = some (0, savedCalls entries n) := by
  obtain ⟨k0, les, hbegin, hles⟩ := reads_begin hpairs hfit hexact
  obtain ⟨k1, hiter⟩ := reads_iterations hexact hids hles n
  obtain ⟨k2, hend⟩ := reads_live hexact hids hles (.inr rfl) (n + 1)
  obtain ⟨k3, les', hfull⟩ := reads_full hpairs hfit hexact les
  have hall := (hbegin.append hiter).append (hend.append hfull)
  generalize hout : (entries.flatMap startSection ++
    (List.range n).flatMap fun i => (savevmStateIterate entries (i + 1)).2) ++
    (entries.flatMap (liveSection qemuVmSectionEnd (n + 1)) ++ entries.flatMap fullSection) = out at hall
  have hstream : savevmStream entries n =
      putBe32 qemuVmFileMagic ++ (putBe32 qemuVmFileVersion ++ (out ++ putByte qemuVmEof)) := by
    rw [← hout, savevmStream, savevmStateBegin, savevmStateComplete]
    simp only [List.append_assoc]
  have hfuel : (out ++ putByte qemuVmEof).length + 1 =
      (out.length - (k0 + k1 + (k2 + k3)) + 1 + 1) + (k0 + k1 + (k2 + k3)) := by
    have := hall.1
    rw [List.length_append, show (putByte qemuVmEof).length = 1 from rfl]
    omega
  rw [loadvmState, hstream, getBe32_putBe32]
  dsimp only
  rw [if_neg (by decide), getBe32_putBe32]
  dsimp only
  rw [if_neg (by decide), if_neg (by decide), hfuel, hall.2, loadLoop_eof]
  simp [savedCalls]

end Sections

/-! ### Registries -/

def registered (ops : List RegistryOp) : Registry := ops.foldl Registry.apply Registry.empty

/-- Section numbers are handed out in turn. -/
theorem sectionIds_sublist (ops : List RegistryOp) : ∃ n ≤ ops.length,
    (registered ops).globalSectionId = BitVec.ofNat 32 n ∧
      ((registered ops).entries.map SaveStateEntry.sectionId).Sublist
        ((List.range n).map (BitVec.ofNat 32)) := by
  induction ops using List.reverseRecOn with
  | nil => exact ⟨0, le_rfl, rfl, List.Sublist.refl _⟩
  | append_singleton ops op ih =>
    obtain ⟨n, hn, hid, hsub⟩ := ih
    rw [registered, List.foldl_append, List.length_append]
    have hlive : ∀ idstr i v l s ld o,
        (registerSavevmLive idstr i v l s ld o (registered ops)).globalSectionId =
          BitVec.ofNat 32 (n + 1) ∧
        ((registerSavevmLive idstr i v l s ld o (registered ops)).entries.map
          SaveStateEntry.sectionId).Sublist ((List.range (n + 1)).map (BitVec.ofNat 32)) := by
      intro idstr i v l s ld o
      constructor
      · show (registered ops).globalSectionId + 1 = _
        rw [hid, BitVec.ofNat_add]
        rfl
      · rw [List.range_succ, List.map_append]
        simp only [registerSavevmLive, List.map_append, List.map_cons, List.map_nil, hid]
        exact hsub.append (List.Sublist.refl _)
    cases op with
    | registerSavevmLive idstr i v l s ld o =>
      exact ⟨n + 1, by simpa using hn, hlive idstr i v l s ld o⟩
    | registerSavevm idstr i v s ld o => exact ⟨n + 1, by simpa using hn, hlive idstr i v none s ld o⟩
    | unregisterSavevm idstr o =>
      exact ⟨n, by omega, hid, (List.filter_sublist.map _).trans hsub⟩

theorem liveIdsDistinct_registered {ops : List RegistryOp} (h : ops.length ≤ 2 ^ 32) :
    LiveIdsDistinct (registered ops).entries := by
  obtain ⟨n, hn, -, hsub⟩ := sectionIds_sublist ops
  have hnodup : ((List.range n).map (BitVec.ofNat 32)).Nodup := by
    apply List.Nodup.map_on _ List.nodup_range
    intro a ha b hb hab
    have := congrArg BitVec.toNat hab
    rw [List.mem_range] at ha hb
    rwa [BitVec.toNat_ofNat, BitVec.toNat_ofNat, Nat.mod_eq_of_lt (by omega), Nat.mod_eq_of_lt (by omega)]
      at this
  exact (hnodup.sublist hsub).sublist (List.filter_sublist.map _)

/-- For every registry with unique pairs, loaders that read what their handlers save and
distinct numbers of live handlers, loading a saved stream returns 0 and calls exactly the
handlers that saved, in stream order, with their data and version. Registrations with
instance -1 that find no largest instance under their name get fresh pairs. -/
theorem savevm_round_trip (ops : List RegistryOp) (n : ℕ) (v2 : Stream → ℤ × List LoadCall)
    (hroom : Meets Registry.apply Room Registry.empty ops)
    (hpairs : PairsUnique (registered ops).entries)
    (hids : LiveIdsDistinct (registered ops).entries) (hexact : LoadersExact (registered ops).entries) :
    loadvmState v2 (registered ops).entries (savevmStream (registered ops).entries n) =
        some (0, savedCalls (registered ops).entries n) ∧
      Meets Registry.apply Fresh Registry.empty ops := by
  have hfit : NamesFit (registered ops) :=
    foldl_invariant (P := NamesFit) (fun _ op h => namesFit_apply h op) ops _
      fun _ h => absurd h List.not_mem_nil
  exact ⟨loadvmState_savevmStream v2 hpairs hfit hexact hids n, hroom.mono fun _ _ => fresh_of_room⟩

/-- The name `ram`. -/
def ramName : CString := ⟨[114, 97, 109], by decide⟩

/-- A live handler and two instances of another one. -/
def threeHandlers : List RegistryOp :=
  [.registerSavevmLive ramName 0 3 (some fun i => (true, [UInt8.ofNat i])) none (fun _ _ => 1) 0,
    .registerSavevm ⟨[112], by decide⟩ (-1) 1 (some [7, 8]) (fun _ _ => 2) 1,
    .registerSavevm ⟨[112], by decide⟩ (-1) 1 (some [9, 9]) (fun _ _ => 2) 2]

theorem savevm_round_trip_threeHandlers :
    loadvmState (fun _ => (0, [])) (registered threeHandlers).entries
        (savevmStream (registered threeHandlers).entries 5) =
      some (0, savedCalls (registered threeHandlers).entries 5) := by
  refine (savevm_round_trip threeHandlers 5 (fun _ => (0, [])) ⟨?_, ?_, ?_, trivial⟩ ?_ ?_ ?_).1
  · intro _ _ se hse
    exact absurd hse List.not_mem_nil
  · have hroom : ∀ se ∈ (registered (threeHandlers.take 1)).entries, se.instanceId ≠ BitVec.intMax 32 := by
      decide
    exact fun _ _ se hse _ => hroom se hse
  · have hroom : ∀ se ∈ (registered (threeHandlers.take 2)).entries, se.instanceId ≠ BitVec.intMax 32 := by
      decide
    exact fun _ _ se hse _ => hroom se hse
  · show ((registered threeHandlers).entries.map fun se => (se.idstr, se.instanceId)).Nodup
    decide
  · exact liveIdsDistinct_registered (by decide)
  · refine List.forall_mem_cons.2 ⟨⟨?_, ?_⟩, List.forall_mem_cons.2 ⟨⟨?_, ?_⟩, List.forall_mem_cons.2
      ⟨⟨?_, ?_⟩, fun _ h => absurd h List.not_mem_nil⟩⟩⟩
    · rintro save hsave i f
      obtain rfl := Option.some.inj hsave
      rfl
    · rintro data hdata
      cases hdata
    · rintro save hsave
      cases hsave
    · rintro data hdata f
      obtain rfl := Option.some.inj hdata
      rfl
    · rintro save hsave
      cases hsave
    · rintro data hdata f
      obtain rfl := Option.some.inj hdata
      rfl

/-- Three handlers of one name, one of them with the largest instance. -/
def crowded : List RegistryOp :=
  [.registerSavevm ramName 6 1 none (fun _ _ => 0) 0,
    .registerSavevm ramName (BitVec.intMax 32) 1 none (fun _ _ => 0) 1,
    .registerSavevm ramName 5 1 none (fun _ _ => 0) 2,
    .registerSavevm ramName (-1) 1 none (fun _ _ => 0) 3]

/-- The fourth handler gets the pair of the first one. -/
theorem crowded_not_fresh : ¬ Meets Registry.apply Fresh Registry.empty crowded := by
  rintro ⟨-, -, -, hfresh, -⟩
  have hfirst : ∃ se ∈ (registered (crowded.take 3)).entries, se.idstr = pstrcpy 256 ramName ∧
      ∃ new ∈ (registered crowded).entries.getLast?, se.instanceId = new.instanceId := by
    refine ⟨_, List.mem_cons_self, rfl, _, rfl, ?_⟩
    decide
  obtain ⟨se, hse, hname, new, hnew, heq⟩ := hfirst
  exact hfresh _ rfl se hse hname new hnew heq

end Ar7Qemu.Migration
