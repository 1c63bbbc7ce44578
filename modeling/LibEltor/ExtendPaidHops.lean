/-
Hop by hop: what the handler of EXTENDPAIDCIRCUIT keeps of a body, and what is read back of it.

The handler puts a newline between payloads, and the payloads are cut out again at a fixed stride, so
with payloads of the length of the stride the second hop gets what begins with the newline
(`getPayhash_joined_iff`).  The items are kept for all the lines that are understood, while a router
is passed over when the buffer for the string is full; and a line is read once by its words and once
up to its first space (`agrees_iff`).
-/
import LibEltor.ExtendPaidPayments

open Bytes PaymentUtil Smartlist CircuitBuild

namespace ExtendPaidCircuit

/-! ### Joining and slicing -/

/-- The string of payloads of a body all of whose lines are understood. -/
def joinPayhashes (payloads : List Bytes) : Option Bytes :=
  payloads.foldlM (addPayhash (payloads.length * 1024)) []

abbrev paymentPayhashSize : ℕ := 768 + 13 + 1

/-- `payment_util_get_hop_payhash` for the hop at the place `hop` of a path of `cpathLen` hops: hops
are counted up to it, or all of them.  The buffer of the caller has `outLen` bytes. -/
def getHopPayhash (payhashes : Option Bytes) (cpathLen hop outLen : ℕ) : Option Bytes :=
  match payhashes with
  | none => none
  | some payhashes =>
    let hopNum := min (hop + 1) cpathLen
    if hopNum = 0 then none
    else
      let extracted := getPayhashFromCirc payhashes hopNum
      if extracted.length > 0 then some (extracted.take (outLen - 1)) else none

/-- Both functions give hop `k` the `k`th payload. -/
def SlicesMatch (payloads : List Bytes) (joined : Bytes) : Prop :=
  ∀ k payload, 1 ≤ k → payloads[k - 1]? = some payload →
    getPayhashFromCirc joined k = wireFormat payload ∧
      ∀ cpathLen, k ≤ cpathLen →
        getHopPayhash (some joined) cpathLen (k - 1) paymentPayhashSize = some (wireFormat payload)

theorem addPayhash_fits {size : ℕ} {joined payload : Bytes} (hj : joined ≠ [])
    (hsize : joined.length + payload.length + 2 ≤ size) :
    addPayhash size joined payload = some (joined ++ 10 :: payload) := by
  have hpos : 0 < joined.length := List.length_pos_iff.mpr hj
  rw [addPayhash]
  simp only [append_eq]
  rw [if_pos hpos, if_pos (by omega), List.take_of_length_le (by omega), List.append_assoc]
  rfl

theorem addPayhash_first {size : ℕ} {payload : Bytes} (hsize : payload.length + 1 ≤ size) :
    addPayhash size [] payload = some payload := by
  rw [addPayhash]
  simp only [append_eq, List.length_nil, List.nil_append]
  rw [if_neg (by omega), List.take_of_length_le (by omega)]

theorem foldlM_addPayhash {size : ℕ} {payloads : List Bytes}
    (hlen : ∀ p ∈ payloads, p.length = payhashStride) {joined : Bytes} (hj : joined ≠ [])
    (hsize : joined.length + 769 * payloads.length + 1 ≤ size) :
    payloads.foldlM (addPayhash size) joined = some (joined ++ payloads.flatMap (10 :: ·)) := by
  induction payloads generalizing joined with
  | nil => rw [List.flatMap_nil, List.append_nil]; rfl
  | cons payload payloads ih =>
    have hpayload := hlen payload List.mem_cons_self
    rw [List.length_cons] at hsize
    have hfits : joined.length + payload.length + 2 ≤ size := by
      rw [payhashStride] at hpayload
      omega
    have hlen' : (joined ++ 10 :: payload).length + 769 * payloads.length + 1 ≤ size := by
      rw [List.length_append, List.length_cons]
      rw [payhashStride] at hpayload
      omega
    rw [List.foldlM_cons, addPayhash_fits hj hfits, Option.bind_eq_bind, Option.bind_some,
      ih (fun p hp => hlen p (List.mem_cons_of_mem payload hp)) (by simp) hlen',
      List.flatMap_cons, List.append_assoc, List.cons_append]

theorem joinPayhashes_eq {payloads : List Bytes} (hne : payloads ≠ [])
    (hlen : ∀ p ∈ payloads, p.length = payhashStride) :
    ∃ joined, joinPayhashes payloads = some joined ∧
      10 :: joined = payloads.flatMap (10 :: ·) := by
  obtain ⟨payload, rest, rfl⟩ := List.exists_cons_of_ne_nil hne
  have hpayload : payload.length = 768 := hlen payload List.mem_cons_self
  have hsize : payload.length + 1 ≤ (payload :: rest).length * 1024 := by
    rw [List.length_cons]
    omega
  have hroom : payload.length + 769 * rest.length + 1 ≤ (payload :: rest).length * 1024 := by
    rw [List.length_cons]
    omega
  have hpayload' : payload ≠ [] := List.ne_nil_of_length_pos (by omega)
  refine ⟨payload ++ rest.flatMap (10 :: ·), ?_, by rw [List.flatMap_cons, List.cons_append]⟩
  rw [joinPayhashes, List.foldlM_cons, addPayhash_first hsize, Option.bind_eq_bind,
    Option.bind_some]
  exact foldlM_addPayhash (fun p hp => hlen p (List.mem_cons_of_mem payload hp)) hpayload' hroom

theorem getElem?_flatMap_blocks {α β : Type*} {f : α → List β} {n : ℕ} {l : List α}
    (h : ∀ a ∈ l, (f a).length = n) {m r : ℕ} (hr : r < n) :
    (l.flatMap f)[n * m + r]? = l[m]?.bind fun a => (f a)[r]? := by
  induction l generalizing m with
  | nil => rfl
  | cons a l ih =>
    have ha := h a List.mem_cons_self
    rw [List.flatMap_cons]
    cases m with
    | zero =>
      rw [Nat.mul_zero, Nat.zero_add, List.getElem?_append_left (by omega)]
      rfl
    | succ m =>
      rw [List.getElem?_append_right (by rw [ha, Nat.mul_succ]; omega), ha,
        show n * (m + 1) + r - n = n * m + r by rw [Nat.mul_succ]; omega,
        ih fun a' ha' => h a' (List.mem_cons_of_mem a ha')]
      rfl

theorem length_flatMap_blocks {payloads : List Bytes}
    (hlen : ∀ p ∈ payloads, p.length = payhashStride) :
    (payloads.flatMap (10 :: ·)).length = 769 * payloads.length := by
  induction payloads with
  | nil => rfl
  | cons payload payloads ih =>
    have hpayload : payload.length = 768 := hlen payload List.mem_cons_self
    rw [List.flatMap_cons, List.length_append, List.length_cons,
      ih fun p hp => hlen p (List.mem_cons_of_mem payload hp), hpayload, List.length_cons]
    omega

theorem getHopPayhash_eq (joined : Bytes) {k cpathLen : ℕ} (hk : 1 ≤ k) (hle : k ≤ cpathLen) :
    getHopPayhash (some joined) cpathLen (k - 1) paymentPayhashSize =
      some (getPayhashFromCirc joined k) := by
  have hnum : min (k - 1 + 1) cpathLen = k := by omega
  have hlen : (getPayhashFromCirc joined k).length ≤ 781 := by
    simp only [getPayhashFromCirc]
    split_ifs
    · rw [length_wireFormat]; simp
    · rw [length_wireFormat, List.length_take, payhashStride]; omega
  have hpos : (getPayhashFromCirc joined k).length > 0 := by
    simp only [getPayhashFromCirc]
    split_ifs <;> rw [length_wireFormat] <;> omega
  rw [getHopPayhash]
  simp only [hnum]
  rw [if_neg (by omega), if_pos hpos,
    List.take_of_length_le (show _ ≤ paymentPayhashSize - 1 from hlen)]

/-- What hop `m + 1` gets is the `m`th payload exactly if it stands where the stride cuts. -/
theorem slice_eq_iff {payloads : List Bytes} (hlen : ∀ p ∈ payloads, p.length = payhashStride)
    {joined : Bytes} (hj : 10 :: joined = payloads.flatMap (10 :: ·)) {m : ℕ} {payload : Bytes}
    (hm : payloads[m]? = some payload) :
    getPayhashFromCirc joined (m + 1) = wireFormat payload ↔
      ∀ i < 768, joined[768 * m + i]? = payload[i]? := by
  have hmem := List.mem_of_getElem? hm
  have hpayload : payload.length = 768 := hlen payload hmem
  have hlt : m < payloads.length := (List.getElem?_eq_some_iff.mp hm).1
  have hjoined := congrArg List.length hj
  rw [length_flatMap_blocks hlen, List.length_cons] at hjoined
  have hin : ¬ (m + 1 - 1) * payhashStride + payhashStride > joined.length := by
    rw [payhashStride]
    omega
  simp only [getPayhashFromCirc]
  rw [if_neg hin, wireFormat, wireFormat, List.append_cancel_left_eq]
  constructor
  · intro heq i hi
    rw [← heq, List.getElem?_take_of_lt hi, List.getElem?_drop, Nat.add_sub_cancel,
      payhashStride, Nat.mul_comm]
  · intro h
    refine List.ext_getElem? fun i => ?_
    by_cases hi : i < 768
    · rw [List.getElem?_take_of_lt hi, List.getElem?_drop, Nat.add_sub_cancel, payhashStride,
        Nat.mul_comm]
      exact h i hi
    · rw [List.getElem?_eq_none (by rw [List.length_take, payhashStride]; omega),
        List.getElem?_eq_none (by omega)]

theorem getElem?_joined {payloads : List Bytes} (hlen : ∀ p ∈ payloads, p.length = payhashStride)
    {joined : Bytes} (hj : 10 :: joined = payloads.flatMap (10 :: ·)) {m i : ℕ} {payload : Bytes}
    (hm : payloads[m]? = some payload) (hi : i < 769) :
    (10 :: joined)[769 * m + i]? = (10 :: payload : Bytes)[i]? := by
  have hblock : ∀ p ∈ payloads, ((10 :: p : Bytes)).length = 769 := fun p hp => by
    rw [List.length_cons, hlen p hp]
  rw [hj, getElem?_flatMap_blocks hblock hi, hm]
  rfl

theorem newlines_of_slices {payloads : List Bytes} (hlen : ∀ p ∈ payloads, p.length = payhashStride)
    {joined : Bytes} (hj : 10 :: joined = payloads.flatMap (10 :: ·))
    (h : ∀ m payload, payloads[m]? = some payload →
      ∀ i < 768, joined[768 * m + i]? = payload[i]?) (j : ℕ) (hge : 769 ≤ j)
    (hlt : j < 769 * payloads.length) : (10 :: joined)[j]? = some 10 := by
  induction j using Nat.strong_induction_on with
  | _ j ih =>
    obtain ⟨payload, hpayload⟩ : ∃ payload, payloads[j / 769]? = some payload :=
      ⟨_, List.getElem?_eq_getElem (by omega)⟩
    have hj' := getElem?_joined hlen hj hpayload (Nat.mod_lt j (by decide : 0 < 769))
    rw [Nat.div_add_mod] at hj'
    rw [hj']
    by_cases hr : j % 769 = 0
    · rw [hr]; rfl
    · obtain ⟨i, hi⟩ : ∃ i, j % 769 = i + 1 := ⟨j % 769 - 1, by omega⟩
      have hcut := h _ payload hpayload i (by omega)
      have hprev := ih (768 * (j / 769) + i + 1) (by omega) (by omega) (by omega)
      rw [hi, List.getElem?_cons_succ, ← hcut]
      rwa [List.getElem?_cons_succ] at hprev

/-- The hops get their payloads exactly if there is one hop only, or all the other payloads are
newlines and nothing else, which no line of a body can hold. -/
theorem getPayhash_joined_iff {payloads : List Bytes} (hne : payloads ≠ [])
    (hlen : ∀ p ∈ payloads, p.length = payhashStride) :
    ∃ joined, joinPayhashes payloads = some joined ∧
      (SlicesMatch payloads joined ↔
        ∀ p ∈ payloads.tail, p = List.replicate payhashStride 10) := by
  obtain ⟨joined, hjoin, hj⟩ := joinPayhashes_eq hne hlen
  have hmatch : SlicesMatch payloads joined ↔ ∀ m payload, payloads[m]? = some payload →
      ∀ i < 768, joined[768 * m + i]? = payload[i]? := by
    constructor
    · intro h m payload hm
      exact (slice_eq_iff hlen hj hm).mp (h (m + 1) payload (by omega) hm).1
    · intro h k payload hk hm
      have hslice := (slice_eq_iff hlen hj hm).mpr (h (k - 1) payload hm)
      rw [Nat.sub_add_cancel hk] at hslice
      refine ⟨hslice, fun cpathLen hle => ?_⟩
      rw [getHopPayhash_eq joined hk hle, hslice]
  have hplace : ∀ m i payload, payloads[m]? = some payload → i < 768 →
      (10 :: joined)[769 * m + (i + 1)]? = payload[i]? :=
    fun m i payload hm hi => getElem?_joined hlen hj hm (Nat.succ_lt_succ hi)
  refine ⟨joined, hjoin, hmatch.trans ⟨fun h p hp => ?_, fun h m payload hm i hi => ?_⟩⟩
  · obtain ⟨m, hm⟩ := List.mem_iff_getElem?.mp hp
    rw [List.getElem?_tail] at hm
    have hm' := (List.getElem?_eq_some_iff.mp hm).1
    refine List.eq_replicate_iff.mpr ⟨hlen p (List.mem_of_mem_tail hp), fun b hb => ?_⟩
    obtain ⟨i, hi⟩ := List.mem_iff_getElem?.mp hb
    have hi' : i < 768 := by
      have hlt := (List.getElem?_eq_some_iff.mp hi).1
      rw [hlen p (List.mem_of_mem_tail hp)] at hlt
      exact hlt
    have hnewline := newlines_of_slices hlen hj h (769 * (m + 1) + (i + 1)) (by omega) (by omega)
    rw [hplace (m + 1) i p hm hi', hi] at hnewline
    exact Option.some_inj.mp hnewline
  · cases m with
    | zero =>
      have hfirst := hplace 0 i payload hm hi
      rw [Nat.mul_zero, Nat.zero_add, List.getElem?_cons_succ] at hfirst
      rwa [Nat.mul_zero, Nat.zero_add]
    | succ m =>
      -- both places are behind the first payload
      have hlt := (List.getElem?_eq_some_iff.mp hm).1
      have hnewlines : ∀ j, 769 ≤ j → j < 769 * payloads.length →
          (10 :: joined)[j]? = some 10 := by
        intro j hge hjlt
        obtain ⟨p, hp⟩ : ∃ p, payloads[j / 769]? = some p :=
          ⟨_, List.getElem?_eq_getElem (by omega)⟩
        have htail : p ∈ payloads.tail := by
          refine List.mem_iff_getElem?.mpr ⟨j / 769 - 1, ?_⟩
          rw [List.getElem?_tail, Nat.sub_add_cancel (by omega), hp]
        have hbyte := getElem?_joined hlen hj hp (Nat.mod_lt j (by decide : 0 < 769))
        rw [Nat.div_add_mod] at hbyte
        rw [hbyte, h p htail, payhashStride, ← List.replicate_succ,
          List.getElem?_replicate_of_lt (by omega)]
      have hcut := hnewlines (768 * (m + 1) + i + 1) (by omega) (by omega)
      have hown := hnewlines (769 * (m + 1) + (i + 1)) (by omega) (by omega)
      rw [hplace (m + 1) i payload hm hi] at hown
      rw [List.getElem?_cons_succ] at hcut
      rw [hcut, hown]

theorem getPayhash_joined_one :
    ∃ joined, joinPayhashes [List.replicate 768 97] = some joined ∧
      (SlicesMatch [List.replicate 768 97] joined ↔
        ∀ p ∈ [List.replicate 768 97].tail, p = List.replicate payhashStride (10 : UInt8)) :=
  getPayhash_joined_iff (List.cons_ne_nil _ _) fun p hp => by
    rw [List.mem_singleton.mp hp, List.length_replicate]

/-- With two hops the second gets a newline first. -/
theorem second_payhash_shifted :
    ∃ joined, joinPayhashes [List.replicate 768 97, List.replicate 768 98] = some joined ∧
      getPayhashFromCirc joined 2 ≠ wireFormat (List.replicate 768 98) := by
  refine ⟨List.replicate 768 97 ++ 10 :: List.replicate 768 98, ?_, ?_⟩ <;> decide +kernel

/-! ### Items, routers and lines -/

variable {Node Info : Type*}

/-- The handler comes to the point where the hops are appended. -/
structure ReachesAppend (env : Env Node Info) (zeroCirc : Bool) (lines : List Bytes)
    (parsed : Parsed Node) : Prop where
  loop : processLines env zeroCirc (bufferSize lines) lines ⟨[], [], []⟩ = .ok parsed
  found : parsed.nodes.length ≠ 0
  size : ¬ parsed.payhashes.length > maxPayhashSize

/-- There is an item and a router for each line that is understood, and at each place they are the
ones of the line. -/
structure Agrees (env : Env Node Info) (zeroCirc : Bool) (lines : List Bytes)
    (parsed : Parsed Node) : Prop where
  items : parsed.relayPayments.length = (hopLines lines).length
  nodes : parsed.nodes.length = (hopLines lines).length
  place : ∀ (i : ℕ) (hop : HopLine) (item : RelayPaymentItem) (node : Node), (hopLines lines)[i]? = some hop →
    parsed.relayPayments[i]? = some item → parsed.nodes[i]? = some node →
    item.fingerprint = hop.fingerprint ∧ item.payload = hop.payhash ∧
      lookupNode env zeroCirc item.fingerprint = .ok node

/-- A line that is understood is two words with one space between them. -/
def SingleSpaced (lines : List Bytes) : Prop :=
  ∀ hop ∈ hopLines lines, ∀ line ∈ lines, parseHopLine line = some hop →
    line = hop.fingerprint ++ 32 :: hop.payhash

theorem getElem?_lookupAll {env : Env Node Info} {zeroCirc : Bool} {hops : List HopLine}
    {nodes : List Node} (h : lookupAll env zeroCirc hops = .ok nodes) {i : ℕ} {hop : HopLine}
    {node : Node} (hhop : hops[i]? = some hop) (hnode : nodes[i]? = some node) :
    lookupNode env zeroCirc hop.fingerprint = .ok node := by
  induction hops generalizing nodes i with
  | nil => cases hhop
  | cons hop' hops ih =>
    rw [lookupAll] at h
    split at h
    · cases h
    · rename_i node' hfirst
      split at h
      · cases h
      · rename_i nodes' hrest
        obtain rfl := Except.ok.inj h
        cases i with
        | zero =>
          obtain rfl := Option.some_inj.mp hhop
          obtain rfl := Option.some_inj.mp hnode
          exact hfirst
        | succ i => exact ih hrest hhop hnode

theorem keptHops_sublist (size room : ℕ) (hops : List HopLine) :
    List.Sublist (keptHops size room hops) hops := by
  induction hops generalizing room with
  | nil => exact List.Sublist.slnil
  | cons hop hops ih =>
    rw [keptHops]
    split_ifs
    · exact (ih _).cons_cons hop
    · exact (ih _).cons hop

theorem parseHopLine_agrees_iff {line : Bytes} {hop : HopLine} (h : parseHopLine line = some hop) :
    (hop.item.fingerprint = hop.fingerprint ∧ hop.item.payload = hop.payhash) ↔
      line = hop.fingerprint ++ 32 :: hop.payhash := by
  obtain ⟨hsplit, hitem⟩ := parseHopLine_eq_some h
  obtain ⟨hline, hword, -, -⟩ := parsePaymentLine_eq_some hitem
  constructor
  · rintro ⟨hfingerprint, hpayload⟩
    rw [← hfingerprint, ← hpayload]
    exact hline
  · intro heq
    have hmem : hop.fingerprint ∈ splitString 32 line := by
      rw [hsplit]
      exact List.mem_cons_self
    have hword' := (mem_splitString hmem).2.2.1
    have htake : ∀ {w t : Bytes}, 32 ∉ w → (w ++ 32 :: t).takeWhile (· ≠ 32) = w := by
      intro w t hw
      have hpos : ∀ b ∈ w, decide (b ≠ 32) = true := fun b hb => by
        simpa using fun h32 : b = 32 => hw (h32 ▸ hb)
      rw [List.takeWhile_append_of_pos hpos, List.takeWhile_cons_of_neg (by simp),
        List.append_nil]
    have hsame : hop.item.fingerprint = hop.fingerprint := by
      rw [← htake hword (t := hop.item.payload), ← hline, heq, htake hword']
    rw [hline, hsame] at heq
    exact ⟨hsame, (List.cons.inj (List.append_cancel_left heq)).2⟩

/-- Items, routers and lines agree exactly if no payload but the last fills the buffer and the words
of every line have one space between them. -/
theorem agrees_iff {env : Env Node Info} {zeroCirc : Bool} {cmddata : Bytes} {parsed : Parsed Node}
    (h : ReachesAppend env zeroCirc (bodyLines cmddata) parsed) :
    Agrees env zeroCirc (bodyLines cmddata) parsed ↔
      PayloadsFit (bodyLines cmddata) ∧ SingleSpaced (bodyLines cmddata) := by
  generalize bodyLines cmddata = lines at h ⊢
  have hlines : lines ≠ [] := by
    rintro rfl
    obtain rfl := Except.ok.inj h.loop
    exact h.found rfl
  have hcollect := h.loop
  rw [collect_eq env zeroCirc hlines] at hcollect
  split at hcollect
  · cases hcollect
  rename_i nodes hlookup
  obtain rfl := Except.ok.inj hcollect
  have hlen := length_of_lookupAll hlookup
  have hkept := keptHops_sublist (bufferSize lines) 0 (hopLines lines)
  have hne : hopLines lines ≠ [] := by
    intro hnil
    rw [keptLines, hnil] at hlen
    exact h.found hlen
  have hfit := @length_keptHops_eq_iff (bufferSize lines) 0 _ hne
  rw [Nat.zero_add] at hfit
  have hitem : ∀ {i : ℕ} {hop : HopLine}, (hopLines lines)[i]? = some hop →
      (paidItems lines)[i]? = some hop.item := fun hhop => by
    rw [paidItems, List.getElem?_map, hhop, Option.map_some]
  constructor
  · intro hagrees
    have hnodes : (keptLines lines).length = (hopLines lines).length := by
      rw [← hlen]
      exact hagrees.nodes
    refine ⟨hfit.mp hnodes, fun hop hhop line _ hline => ?_⟩
    obtain ⟨i, hi⟩ := List.mem_iff_getElem?.mp hhop
    have hlt : i < nodes.length := by
      rw [hlen, hnodes]
      exact (List.getElem?_eq_some_iff.mp hi).1
    obtain ⟨hfingerprint, hpayload, -⟩ :=
      hagrees.place i hop hop.item _ hi (hitem hi) (List.getElem?_eq_getElem hlt)
    exact (parseHopLine_agrees_iff hline).mp ⟨hfingerprint, hpayload⟩
  · rintro ⟨hroom, hspaced⟩
    have hall : keptLines lines = hopLines lines := hkept.eq_of_length (hfit.mpr hroom)
    refine ⟨by rw [paidItems, List.length_map], by rw [hlen, hall], ?_⟩
    intro i hop item node hhop hitem' hnode
    rw [hitem hhop] at hitem'
    obtain rfl := Option.some_inj.mp hitem'
    have hmem := List.mem_of_getElem? hhop
    obtain ⟨line, hline, hparse⟩ := List.mem_filterMap.mp hmem
    obtain ⟨hfingerprint, hpayload⟩ :=
      (parseHopLine_agrees_iff hparse).mpr (hspaced hop hmem line hline hparse)
    refine ⟨hfingerprint, hpayload, ?_⟩
    rw [hfingerprint]
    exact getElem?_lookupAll hlookup (hall ▸ hhop) hnode

deriving instance DecidableEq for Reply, Parsed

/-- The router `"A"`, `spaces` spaces and a payload of 128 letters. -/
def spacedBody (spaces : ℕ) : Bytes :=
  65 :: (List.replicate spaces 32 ++ List.replicate 128 97)

/-- What is collected of it: the payload of the item begins behind the first space. -/
def spacedParsed (spaces : ℕ) : Parsed Unit where
  relayPayments :=
    let payload := List.replicate (spaces - 1) 32 ++ List.replicate 128 97
    [⟨[65], payload.take 64, (payload.drop 64).take 64, payload.drop 128, wireFormat payload⟩]
  payhashes := List.replicate 128 97
  nodes := [()]

theorem agrees_iff_oneSpace :
    Agrees workingEnv true (bodyLines (spacedBody 1)) (spacedParsed 1) ↔
      PayloadsFit (bodyLines (spacedBody 1)) ∧ SingleSpaced (bodyLines (spacedBody 1)) :=
  agrees_iff ⟨by decide +kernel, by decide, by decide +kernel⟩

/-- With two spaces the payment of the item begins with a space. -/
theorem two_spaces_disagree :
    ReachesAppend workingEnv true (bodyLines (spacedBody 2)) (spacedParsed 2) ∧
      ¬ Agrees workingEnv true (bodyLines (spacedBody 2)) (spacedParsed 2) := by
  refine ⟨⟨by decide +kernel, by decide, by decide +kernel⟩, fun h => ?_⟩
  have hhops : ((hopLines (bodyLines (spacedBody 2)))[0]?.map HopLine.payhash) =
      some (List.replicate 128 97) := by decide +kernel
  obtain ⟨hop, hhop, hpayhash⟩ := Option.map_eq_some_iff.mp hhops
  have hpayload := (h.place 0 hop _ () hhop rfl rfl).2.1
  rw [hpayhash] at hpayload
  exact absurd hpayload (by decide)

end ExtendPaidCircuit
