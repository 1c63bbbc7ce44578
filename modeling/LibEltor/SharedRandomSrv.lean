/-
Agreement on the shared random value.

The value is a hash of the reveals in the order of their hashes, not of the fingerprints, and the
fingerprints stand in what is hashed.  Two authorities that hold the same commits agree when
no two commits with a reveal have one hash (`sorted_keys_eq`); where two have, the order is
whatever the map and the sort make of it, and the values differ (`tied_srvs`).
-/
import LibEltor.SharedRandomState

open Bytes Binascii

namespace SharedRandom

/-! ### The order of the commits -/

theorem fastMemcmp_nonpos_iff {a b : Bytes} (h : a.length = b.length) :
    fastMemcmp a b ≤ 0 ↔ a ≤ b := by
  induction a generalizing b with
  | nil =>
    cases b with
    | nil => simp [fastMemcmp]
    | cons y b => cases h
  | cons x a ih =>
    cases b with
    | nil => cases h
    | cons y b =>
      rw [List.cons_le_cons_iff, fastMemcmp]
      split_ifs with hlt hgt
      · simp [hlt]
      · have hne : x ≠ y := fun heq => absurd (heq ▸ hgt) (UInt8.lt_irrefl _)
        simp [hlt, hne]
      · have heq : x = y := UInt8.le_antisymm (UInt8.not_lt.mp hgt) (UInt8.not_lt.mp hlt)
        subst heq
        simpa using ih (Nat.succ.inj h)

theorem compareReveal_nonpos_iff {a b : SrCommit} :
    compareReveal a b ≤ 0 ↔ a.hashedReveal.toList ≤ b.hashedReveal.toList :=
  fastMemcmp_nonpos_iff (by simp)

structure Sorts (known : Digest → Bool) (s : SrState) (sorted : List SrCommit) : Prop where
  perm : sorted.Perm (knownCommits known s)
  sorted : sorted.Pairwise fun a b => compareReveal a b ≤ 0

def ComputesSrv (digest256 : Bytes → Digest256) (known : Digest → Bool) (s : SrState)
    (srv : SrSrv) : Prop :=
  ∃ smartlistSort : List SrCommit → List SrCommit,
    Sorts known s (smartlistSort (knownCommits known s)) ∧
      (srComputeSrv digest256 smartlistSort known s).currentSrv = some srv

structure Computable (s : SrState) : Prop where
  phase : s.phase = .reveal
  nodup : (s.commits.map (·.rsaIdentity)).Nodup
  decoded : ∀ c ∈ s.commits, Decoded c

def triple (c : SrCommit) : Digest × Bytes × Bytes := (c.rsaIdentity, c.encodedCommit, c.encodedReveal)

structure SameCommits (s s' : SrState) : Prop where
  triples : ∀ t, t ∈ s.commits.map triple ↔ t ∈ s'.commits.map triple
  previousSrv : s.previousSrv = s'.previousSrv

def SrvAgreed (known : Digest → Bool) (s : SrState) : Prop :=
  ∀ digest256 s' srv srv', Computable s' → SameCommits s s' →
    ComputesSrv digest256 known s srv → ComputesSrv digest256 known s' srv' → srv = srv'

def RevealsApart (known : Digest → Bool) (s : SrState) : Prop :=
  ∀ c ∈ knownCommits known s, ∀ c' ∈ knownCommits known s, commitHasRevealValue c = true →
    commitHasRevealValue c' = true → c.hashedReveal = c'.hashedReveal →
    c.rsaIdentity = c'.rsaIdentity

variable {known : Digest → Bool} {s s' : SrState} {digest256 : Bytes → Digest256}

theorem computesSrv_iff (hs : s.phase = .reveal) {srv : SrSrv} :
    ComputesSrv digest256 known s srv ↔
      ∃ sorted, Sorts known s sorted ∧ srvOfSorted digest256 sorted s.previousSrv = srv := by
  constructor
  · rintro ⟨smartlistSort, hsorts, hsrv⟩
    refine ⟨_, hsorts, ?_⟩
    rw [srComputeSrv, if_neg (by simp [hs])] at hsrv
    exact Option.some.inj hsrv
  · rintro ⟨sorted, hsorts, hsrv⟩
    refine ⟨fun _ => sorted, hsorts, ?_⟩
    rw [srComputeSrv, if_neg (by simp [hs])]
    exact congrArg some hsrv

/-! ### Distinct hashes -/

def srvKey (c : SrCommit) : Bytes × Bytes × Bytes :=
  (c.hashedReveal.toList, srCommitGetRsaFpr c, c.encodedReveal)

def keyElement (k : Bytes × Bytes × Bytes) : Bytes := k.2.1 ++ k.2.2

def revealedKeys (sorted : List SrCommit) : List (Bytes × Bytes × Bytes) :=
  (sorted.filter commitHasRevealValue).map srvKey

theorem filterMap_getSrvElement (sorted : List SrCommit) :
    sorted.filterMap getSrvElementFromCommit = (revealedKeys sorted).map keyElement := by
  induction sorted with
  | nil => rfl
  | cons c sorted ih =>
    by_cases hreveal : commitHasRevealValue c = true
    · simp [revealedKeys, getSrvElementFromCommit, hreveal, keyElement, srvKey] at ih ⊢
      exact ih
    · simp [revealedKeys, getSrvElementFromCommit, hreveal] at ih ⊢
      exact ih

theorem srvOfSorted_congr {sorted sorted' : List SrCommit} {previousSrv : Option SrSrv}
    (h : revealedKeys sorted = revealedKeys sorted') :
    srvOfSorted digest256 sorted previousSrv = srvOfSorted digest256 sorted' previousSrv := by
  simp only [srvOfSorted, filterMap_getSrvElement, h]

theorem srvKey_eq_of_triple {c c' : SrCommit} (hc : Decoded c) (hc' : Decoded c')
    (h : triple c = triple c') : srvKey c = srvKey c' := by
  simp only [triple, Prod.mk.injEq] at h
  obtain ⟨hid, hcommit, hreveal⟩ := h
  have hfields := hc.2
  rw [hcommit, hc'.2] at hfields
  have hhash := (Prod.ext_iff.mp (Option.some.inj hfields)).2
  dsimp only at hhash
  simp only [srvKey, srCommitGetRsaFpr, hid, hreveal, hhash]

theorem mem_revealedKeys_of_sameCommits (hs : Computable s) (hs' : Computable s')
    (h : SameCommits s s') {k : Bytes × Bytes × Bytes}
    (hk : k ∈ revealedKeys (knownCommits known s)) : k ∈ revealedKeys (knownCommits known s') := by
  obtain ⟨c, hc, rfl⟩ := List.mem_map.mp hk
  obtain ⟨hc, hreveal⟩ := List.mem_filter.mp hc
  obtain ⟨hc, hknown⟩ := List.mem_filter.mp hc
  obtain ⟨c', hc', heq⟩ := List.mem_map.mp ((h.triples _).mp (List.mem_map_of_mem hc))
  have hkey := srvKey_eq_of_triple (hs'.decoded c' hc') (hs.decoded c hc) heq
  simp only [triple, Prod.mk.injEq] at heq
  rw [← hkey]
  refine List.mem_map_of_mem (List.mem_filter.mpr ⟨List.mem_filter.mpr ⟨hc', ?_⟩, ?_⟩)
  · rw [heq.1]
    exact hknown
  · rw [commitHasRevealValue, heq.2.2]
    exact hreveal

theorem nodup_revealedKeys (hs : Computable s) : (revealedKeys (knownCommits known s)).Nodup := by
  have hsub : ((knownCommits known s).filter commitHasRevealValue).Sublist s.commits :=
    (List.filter_sublist).trans List.filter_sublist
  have hids := (hsub.map (·.rsaIdentity)).nodup hs.nodup
  refine List.Nodup.of_map (fun k => k.2.1) ?_
  simp only [revealedKeys, List.map_map]
  have hfpr : (fun c : SrCommit => base16Encode c.rsaIdentity.toList) =
      (fun id : Digest => base16Encode id.toList) ∘ (·.rsaIdentity) := rfl
  show (List.map (fun c : SrCommit => base16Encode c.rsaIdentity.toList) _).Nodup
  rw [hfpr, ← List.map_map]
  exact hids.map (base16Encode_injective.comp fun _ _ heq => List.Vector.eq _ _ heq)

theorem perm_revealedKeys {sorted : List SrCommit} (h : Sorts known s sorted) :
    (revealedKeys sorted).Perm (revealedKeys (knownCommits known s)) :=
  (h.perm.filter _).map _

theorem pairwise_revealedKeys {sorted : List SrCommit} (h : Sorts known s sorted) :
    (revealedKeys sorted).Pairwise fun k k' => k.1 ≤ k'.1 := by
  have hle := h.sorted.imp fun hab => compareReveal_nonpos_iff.mp hab
  exact List.pairwise_map.mpr (hle.sublist List.filter_sublist)

theorem sorted_keys_eq (hs : Computable s) (hs' : Computable s') (hsame : SameCommits s s')
    (hapart : RevealsApart known s) {sorted sorted' : List SrCommit}
    (h : Sorts known s sorted) (h' : Sorts known s' sorted') :
    revealedKeys sorted = revealedKeys sorted' := by
  have hsymm : SameCommits s' s := ⟨fun t => (hsame.triples t).symm, hsame.previousSrv.symm⟩
  have hperm : (revealedKeys sorted).Perm (revealedKeys sorted') := by
    refine (perm_revealedKeys h).trans (List.Perm.trans ?_ (perm_revealedKeys h').symm)
    rw [List.perm_ext_iff_of_nodup (nodup_revealedKeys hs) (nodup_revealedKeys hs')]
    exact fun k => ⟨mem_revealedKeys_of_sameCommits hs hs' hsame,
      mem_revealedKeys_of_sameCommits hs' hs hsymm⟩
  refine hperm.eq_of_pairwise ?_ (pairwise_revealedKeys h) (pairwise_revealedKeys h')
  intro k k' hk hk' hle hge
  -- keys of one hash are those of one authority
  obtain ⟨c, hc, rfl⟩ := List.mem_map.mp ((perm_revealedKeys h).subset hk)
  obtain ⟨c', hc', rfl⟩ := List.mem_map.mp
    ((perm_revealedKeys h).subset (hperm.symm.subset hk'))
  obtain ⟨hc, hreveal⟩ := List.mem_filter.mp hc
  obtain ⟨hc', hreveal'⟩ := List.mem_filter.mp hc'
  have hhash : c.hashedReveal = c'.hashedReveal := List.Vector.eq _ _ (List.le_antisymm hle hge)
  have hid := hapart c hc c' hc' hreveal hreveal' hhash
  have hmem : ∀ {c}, c ∈ knownCommits known s → c ∈ s.commits := fun hc =>
    List.mem_of_mem_filter hc
  rw [List.inj_on_of_nodup_map hs.nodup (hmem hc) (hmem hc') hid]

theorem srvAgreed_of_revealsApart (hs : Computable s) (hapart : RevealsApart known s) :
    SrvAgreed known s := by
  intro digest256 s' srv srv' hs' hsame hsrv hsrv'
  obtain ⟨sorted, h, rfl⟩ := (computesSrv_iff hs.phase).mp hsrv
  obtain ⟨sorted', h', rfl⟩ := (computesSrv_iff hs'.phase).mp hsrv'
  rw [hsame.previousSrv]
  exact srvOfSorted_congr (sorted_keys_eq hs hs' hsame hapart h h')

/-! ### Equal hashes -/

theorem sorts_swap {c c' : SrCommit} {A B : List SrCommit} (hhash : c.hashedReveal = c'.hashedReveal)
    (h : Sorts known s (A ++ c :: c' :: B)) : Sorts known s (A ++ c' :: c :: B) where
  perm := (List.Perm.append_left A (List.Perm.swap c c' B)).trans h.perm
  sorted := by
    have hleft : ∀ d, compareReveal c d = compareReveal c' d := fun d => by
      simp only [compareReveal, hhash]
    have hright : ∀ d, compareReveal d c = compareReveal d c' := fun d => by
      simp only [compareReveal, hhash]
    have hsorted := h.sorted
    simp only [List.pairwise_append, List.pairwise_cons, List.mem_cons, forall_eq_or_imp] at hsorted ⊢
    simp only [hleft, hright] at hsorted ⊢
    tauto

theorem nodup_knownCommits (known : Digest → Bool) (hs : Computable s) : (knownCommits known s).Nodup :=
  List.Nodup.of_map _ ((List.filter_sublist.map (·.rsaIdentity)).nodup hs.nodup)

theorem exists_sorts (hs : Computable s) {c c' : SrCommit} (hc : c ∈ knownCommits known s)
    (hc' : c' ∈ knownCommits known s) (hhash : c.hashedReveal = c'.hashedReveal)
    (hid : c.rsaIdentity ≠ c'.rsaIdentity) : ∃ A B, Sorts known s (A ++ c :: c' :: B) := by
  let le : SrCommit → SrCommit → Bool := fun a b =>
    decide (a.hashedReveal.toList ≤ b.hashedReveal.toList)
  let rest := (knownCommits known s).filter fun d =>
    decide (d.rsaIdentity ≠ c.rsaIdentity ∧ d.rsaIdentity ≠ c'.rsaIdentity)
  have hsort : ∀ l : List SrCommit, (l.mergeSort le).Pairwise fun a b => compareReveal a b ≤ 0 := by
    intro l
    have htrans : ∀ a b d, le a b = true → le b d = true → le a d = true := by
      simp only [le, decide_eq_true_eq]
      exact fun a b d => List.le_trans
    have htotal : ∀ a b, (le a b || le b a) = true := by
      simp only [le, Bool.or_eq_true, decide_eq_true_eq]
      exact fun a b => List.le_total _ _
    refine (List.pairwise_mergeSort htrans htotal l).imp ?_
    simp only [le, decide_eq_true_eq]
    exact fun hab => compareReveal_nonpos_iff.mpr hab
  refine ⟨(rest.filter fun d => le d c).mergeSort le, (rest.filter fun d => !le d c).mergeSort le,
    ?_, ?_⟩
  · have hnotmem : ∀ d ∈ rest, d.rsaIdentity ≠ c.rsaIdentity ∧ d.rsaIdentity ≠ c'.rsaIdentity :=
      fun d hd => of_decide_eq_true (List.mem_filter.mp hd).2
    have hrest : (c :: c' :: rest).Perm (knownCommits known s) := by
      have hnd := nodup_knownCommits known hs
      refine (List.perm_ext_iff_of_nodup ?_ hnd).mpr fun d => ?_
      · refine List.nodup_cons.mpr ⟨?_, List.nodup_cons.mpr ⟨?_, hnd.filter _⟩⟩
        · simp only [List.mem_cons, not_or]
          exact ⟨fun heq => hid (heq ▸ rfl), fun hmem => (hnotmem c hmem).1 rfl⟩
        · exact fun hmem => (hnotmem c' hmem).2 rfl
      · have hinj : ∀ {d e}, d ∈ knownCommits known s → e ∈ knownCommits known s →
            d.rsaIdentity = e.rsaIdentity → d = e := fun hd he heq =>
          List.inj_on_of_nodup_map hs.nodup (List.mem_of_mem_filter hd) (List.mem_of_mem_filter he) heq
        simp only [List.mem_cons]
        constructor
        · rintro (rfl | rfl | hd)
          · exact hc
          · exact hc'
          · exact List.mem_of_mem_filter hd
        · intro hd
          by_cases h1 : d.rsaIdentity = c.rsaIdentity
          · exact .inl (hinj hd hc h1)
          by_cases h2 : d.rsaIdentity = c'.rsaIdentity
          · exact .inr (.inl (hinj hd hc' h2))
          · exact .inr (.inr (List.mem_filter.mpr ⟨hd, decide_eq_true ⟨h1, h2⟩⟩))
    have hsplit : ((rest.filter fun d => le d c).mergeSort le ++ c :: c' ::
        (rest.filter fun d => !le d c).mergeSort le).Perm (c :: c' :: rest) := by
      refine List.perm_middle.trans (.cons c (List.perm_middle.trans (.cons c' ?_)))
      exact ((List.mergeSort_perm _ _).append (List.mergeSort_perm _ _)).trans
        (List.filter_append_perm _ _)
    exact hsplit.trans hrest
  · have hbefore : ∀ d ∈ (rest.filter fun d => le d c).mergeSort le, compareReveal d c ≤ 0 := by
      intro d hd
      have hmem := (List.mergeSort_perm _ _).subset hd
      exact compareReveal_nonpos_iff.mpr (of_decide_eq_true (List.mem_filter.mp hmem).2)
    have hbehind : ∀ d ∈ (rest.filter fun d => !le d c).mergeSort le, compareReveal c d ≤ 0 := by
      intro d hd
      have hmem := (List.mem_filter.mp ((List.mergeSort_perm _ _).subset hd)).2
      simp only [le, Bool.not_eq_true', decide_eq_false_iff_not] at hmem
      exact compareReveal_nonpos_iff.mpr ((List.le_total _ _).resolve_right hmem)
    have hequal : compareReveal c c' ≤ 0 := by
      rw [compareReveal_nonpos_iff, hhash]
      exact List.le_refl _
    have hleft : ∀ d, compareReveal c' d = compareReveal c d := fun d => by
      simp only [compareReveal, hhash]
    have hright : ∀ d, compareReveal d c' = compareReveal d c := fun d => by
      simp only [compareReveal, hhash]
    refine List.pairwise_append.mpr ⟨hsort _, List.pairwise_cons.mpr ⟨?_, List.pairwise_cons.mpr
      ⟨fun d hd => hleft d ▸ hbehind d hd, hsort _⟩⟩, ?_⟩
    · intro d hd
      obtain rfl | hd := List.mem_cons.mp hd
      · exact hequal
      · exact hbehind d hd
    · intro d hd e he
      obtain rfl | he := List.mem_cons.mp he
      · exact hbefore d hd
      obtain rfl | he := List.mem_cons.mp he
      · exact hright d ▸ hbefore d hd
      · exact compareReveal_nonpos_iff.mpr (List.le_trans
          (compareReveal_nonpos_iff.mp (hbefore d hd)) (compareReveal_nonpos_iff.mp (hbehind e he)))

def reveals (sorted : List SrCommit) : Bytes := (sorted.filterMap getSrvElementFromCommit).flatten

theorem reveals_append (A B : List SrCommit) : reveals (A ++ B) = reveals A ++ reveals B := by
  simp [reveals]

theorem reveals_cons {c : SrCommit} (hreveal : commitHasRevealValue c = true) (B : List SrCommit) :
    reveals (c :: B) = srCommitGetRsaFpr c ++ (c.encodedReveal ++ reveals B) := by
  simp [reveals, getSrvElementFromCommit, hreveal]

theorem length_srCommitGetRsaFpr (c : SrCommit) : (srCommitGetRsaFpr c).length = 40 := by
  simp [srCommitGetRsaFpr, length_base16Encode]

theorem reveals_ne {c c' : SrCommit} {A B : List SrCommit} (hreveal : commitHasRevealValue c = true)
    (hreveal' : commitHasRevealValue c' = true) (hid : c.rsaIdentity ≠ c'.rsaIdentity) :
    reveals (A ++ c :: c' :: B) ≠ reveals (A ++ c' :: c :: B) := by
  intro heq
  rw [reveals_append, reveals_append] at heq
  have htail := List.append_cancel_left heq
  rw [reveals_cons hreveal (c' :: B), reveals_cons hreveal' (c :: B)] at htail
  have hlen : (srCommitGetRsaFpr c).length = (srCommitGetRsaFpr c').length := by
    rw [length_srCommitGetRsaFpr, length_srCommitGetRsaFpr]
  have hfpr := (List.append_inj htail hlen).1
  exact hid (List.Vector.eq _ _ (base16Encode_injective hfpr))

theorem hexDigit_ne {n : ℕ} (hn : n < 16) : hexDigit n ≠ 115 := by
  have h : ∀ n : Fin 16, hexDigit n ≠ 115 := by decide
  exact h ⟨n, hn⟩

theorem reveals_ne_srvMsg (sorted : List SrCommit) (hashed : Digest256) (n : ℕ)
    (previousSrv : Option SrSrv) : reveals sorted ≠ srvMsg hashed n previousSrv := by
  have hmsg : (srvMsg hashed n previousSrv).head? = some 115 := rfl
  have hhead : (reveals sorted).head? ≠ some 115 := by
    induction sorted with
    | nil => simp [reveals]
    | cons c sorted ih =>
      by_cases hreveal : commitHasRevealValue c = true
      · rw [reveals_cons hreveal]
        have hid := List.Vector.length_val c.rsaIdentity
        cases hbytes : c.rsaIdentity.toList with
        | nil =>
          have hzero : c.rsaIdentity.toList.length = 20 := hid
          simp [hbytes] at hzero
        | cons b bs =>
          have hdigit := hexDigit_ne (n := b.toNat / 16) (by have := b.toNat_lt; omega)
          simpa [srCommitGetRsaFpr, hbytes, base16Encode] using hdigit
      · simpa [reveals, getSrvElementFromCommit, hreveal] using ih
  intro heq
  rw [heq] at hhead
  exact hhead hmsg

def splitDigest (first second : Bytes) (x : Bytes) : Digest256 :=
  if x = first ∨ x = second then zeroFill 32 [] else zeroFill 32 [1]

theorem srvMsg_injective {hashed hashed' : Digest256} {n : ℕ} {previousSrv : Option SrSrv}
    (h : srvMsg hashed n previousSrv = srvMsg hashed' n previousSrv) : hashed = hashed' := by
  simp only [srvMsg, List.append_assoc] at h
  have htail := List.append_cancel_left (List.append_cancel_left (List.append_cancel_left h))
  exact List.Vector.eq _ _ (List.append_inj htail (by simp)).1

theorem length_srvMsg (hashed : Digest256) (n : ℕ) (previousSrv : Option SrSrv) :
    (srvMsg hashed n previousSrv).length = 89 := by
  cases previousSrv <;> simp [srvMsg, srSrvToken, ascii]

theorem tied_srvs (hs : Computable s) {c c' : SrCommit} (hc : c ∈ knownCommits known s)
    (hc' : c' ∈ knownCommits known s) (hreveal : commitHasRevealValue c = true)
    (hreveal' : commitHasRevealValue c' = true) (hhash : c.hashedReveal = c'.hashedReveal)
    (hid : c.rsaIdentity ≠ c'.rsaIdentity) :
    ∃ first second srv srv', 80 ≤ first.length ∧ 80 ≤ second.length ∧
      ComputesSrv (splitDigest first second) known s srv ∧
      ComputesSrv (splitDigest first second) known s srv' ∧ srv ≠ srv' := by
  obtain ⟨A, B, hsorts⟩ := exists_sorts hs hc hc' hhash hid
  have hsorts' := sorts_swap hhash hsorts
  have hcount : ((A ++ c' :: c :: B).filterMap getSrvElementFromCommit).length =
      ((A ++ c :: c' :: B).filterMap getSrvElementFromCommit).length :=
    ((List.Perm.append_left A (List.Perm.swap c c' B)).filterMap _).length_eq
  let n := ((A ++ c :: c' :: B).filterMap getSrvElementFromCommit).length
  let first := reveals (A ++ c :: c' :: B)
  let second := srvMsg (zeroFill 32 []) n s.previousSrv
  have hzero : zeroFill 32 [] ≠ zeroFill 32 [1] := by decide
  have hfirst : splitDigest first second first = zeroFill 32 [] := if_pos (.inl rfl)
  have hother : splitDigest first second (reveals (A ++ c' :: c :: B)) = zeroFill 32 [1] :=
    if_neg (not_or.mpr ⟨(reveals_ne hreveal hreveal' hid).symm, reveals_ne_srvMsg _ _ _ _⟩)
  have hsecond : splitDigest first second second = zeroFill 32 [] := if_pos (.inr rfl)
  have hlast : splitDigest first second (srvMsg (zeroFill 32 [1]) n s.previousSrv) = zeroFill 32 [1] :=
    if_neg (not_or.mpr ⟨(reveals_ne_srvMsg _ _ _ _).symm, fun h => hzero (srvMsg_injective h).symm⟩)
  refine ⟨first, second, _, _, ?_, ?_, (computesSrv_iff hs.phase).mpr ⟨_, hsorts, rfl⟩,
    (computesSrv_iff hs.phase).mpr ⟨_, hsorts', rfl⟩, ?_⟩
  · simp only [first, reveals_append, reveals_cons hreveal, reveals_cons hreveal', List.length_append,
      length_srCommitGetRsaFpr]
    omega
  · simp only [second, length_srvMsg]
    decide
  · intro heq
    have hvalue := congrArg SrSrv.value heq
    simp only [srvOfSorted, generateSrv] at hvalue
    rw [hcount] at hvalue
    change splitDigest first second (srvMsg (splitDigest first second first) n s.previousSrv) =
      splitDigest first second
        (srvMsg (splitDigest first second (reveals (A ++ c' :: c :: B))) n s.previousSrv) at hvalue
    rw [hfirst, hother, hsecond, hlast] at hvalue
    exact hzero hvalue

/-- The value is agreed on, whatever the hash, exactly when no two commits that count have one
hash. -/
theorem srvAgreed_iff (hs : Computable s) : SrvAgreed known s ↔ RevealsApart known s := by
  refine ⟨fun hagreed => ?_, srvAgreed_of_revealsApart hs⟩
  intro c hc c' hc' hreveal hreveal' hhash
  by_contra hid
  obtain ⟨first, second, srv, srv', -, -, hsrv, hsrv', hne⟩ :=
    tied_srvs hs hc hc' hreveal hreveal' hhash hid
  exact hne (hagreed _ s srv srv' hs ⟨fun _ => .rfl, rfl⟩ hsrv hsrv')

/-! ### A copied commitment -/

/-- The commit of an authority, made from one time and one random number by all. -/
def copiedCommit (identity : Digest) : SrCommit :=
  let commit := { commitNew identity with valid := true, hashedReveal := zeroFill 32 [1] }
  let commit := { commit with encodedReveal := revealEncode commit }
  { commit with encodedCommit := commitEncode commit }

def copiedReveal : SrState :=
  { stateNew hourly 0 with
    phase := .reveal
    commits := [copiedCommit (zeroFill 20 [1]), copiedCommit (zeroFill 20 [2])] }

theorem decoded_copiedCommit (identity : Digest) : Decoded (copiedCommit identity) :=
  ⟨rfl, commitFields_commitEncode _⟩

theorem computable_copiedReveal : Computable copiedReveal where
  phase := rfl
  nodup := by decide
  decoded c hc := by
    simp only [copiedReveal, List.mem_cons, List.not_mem_nil, or_false] at hc
    obtain rfl | rfl := hc
    · exact decoded_copiedCommit _
    · exact decoded_copiedCommit _

theorem hasReveal_copiedCommit (identity : Digest) :
    commitHasRevealValue (copiedCommit identity) = true := rfl

theorem copiedReveal_not_agreed : ¬ SrvAgreed (fun _ => true) copiedReveal := by
  intro h
  have hapart := (srvAgreed_iff computable_copiedReveal).mp h
  have hid := hapart (copiedCommit (zeroFill 20 [1])) (by simp [knownCommits, copiedReveal])
    (copiedCommit (zeroFill 20 [2])) (by simp [knownCommits, copiedReveal])
    (hasReveal_copiedCommit _) (hasReveal_copiedCommit _) rfl
  revert hid
  decide

/-- Under a hash that both commits are right for, two honest authorities compute two values. -/
theorem copiedReveal_splits :
    ∃ digest256 srv srv', (∀ c ∈ copiedReveal.commits, c.valid = true ∧
        verifyCommitAndReveal digest256 c = true) ∧
      ComputesSrv digest256 (fun _ => true) copiedReveal srv ∧
      ComputesSrv digest256 (fun _ => true) copiedReveal srv' ∧ srv ≠ srv' := by
  have hfirst : copiedCommit (zeroFill 20 [1]) ∈ knownCommits (fun _ => true) copiedReveal := by
    simp [knownCommits, copiedReveal]
  have hsecond : copiedCommit (zeroFill 20 [2]) ∈ knownCommits (fun _ => true) copiedReveal := by
    simp [knownCommits, copiedReveal]
  obtain ⟨first, second, srv, srv', hfirstLen, hsecondLen, hsrv, hsrv', hne⟩ :=
    tied_srvs computable_copiedReveal hfirst hsecond
      (hasReveal_copiedCommit _) (hasReveal_copiedCommit _) rfl (by decide)
  have hblob : ∀ identity, splitDigest first second (revealBlob (copiedCommit identity)) =
      zeroFill 32 [1] := by
    intro identity
    have hlen : (revealBlob (copiedCommit identity)).length = 56 := by simp [revealBlob, srRevealBase64Len]
    refine if_neg (not_or.mpr ⟨fun heq => ?_, fun heq => ?_⟩)
    · rw [heq] at hlen
      omega
    · rw [heq] at hlen
      omega
  have hverify : ∀ identity, verifyCommitAndReveal (splitDigest first second) (copiedCommit identity) =
      true := by
    intro identity
    simp only [verifyCommitAndReveal, hblob]
    rfl
  refine ⟨_, srv, srv', ?_, hsrv, hsrv', hne⟩
  intro c hc
  simp only [copiedReveal, List.mem_cons, List.not_mem_nil, or_false] at hc
  obtain rfl | rfl := hc
  · exact ⟨rfl, hverify _⟩
  · exact ⟨rfl, hverify _⟩

end SharedRandom
