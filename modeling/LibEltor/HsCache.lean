/-
The descriptor caches of onion services (`feature/hs/hs_cache.c`).

A directory keeps encoded descriptors by blinded key, a client keeps them by service key, decrypted
or not.  One counter, for the OOM handler, is to be the size of everything in both; what is dropped
from a cache is taken off by its size at that time.
-/
import Mathlib
import LibEltor.Bytes
import LibEltor.KeyedList
import LibEltor.Transition

open KeyedList Transition

namespace HsCache

/-! ### Descriptors -/

structure PlaintextData where
  blindedPubkey : Block 32
  revisionCounter : ℕ
  lifetimeSec : ℤ
  objSize : ℕ
  deriving DecidableEq

/-- `hs_cache_dir_descriptor_t`; the key is that of the plaintext data. -/
structure DirDescriptor where
  plaintextData : PlaintextData
  encodedDesc : Bytes
  createdTs : ℤ
  deriving DecidableEq

/-- A decrypted descriptor: its revision counter and its `hs_desc_obj_size`. -/
structure HsDescriptor where
  revisionCounter : ℕ
  objSize : ℕ
  deriving DecidableEq

structure ClientDescriptor where
  key : Block 32
  expirationTs : ℤ
  desc : Option HsDescriptor
  encodedDesc : Bytes
  deriving DecidableEq

def DirDescriptor.key (e : DirDescriptor) : Block 32 := e.plaintextData.blindedPubkey

/-- `sizeof` of the two entries. -/
structure Sizes where
  dirDescriptor : ℕ
  clientDescriptor : ℕ

def cacheGetDirEntrySize (sizes : Sizes) (entry : DirDescriptor) : ℕ :=
  sizes.dirDescriptor + entry.plaintextData.objSize + entry.encodedDesc.length

def entryHasDecryptedDescriptor (entry : ClientDescriptor) : Bool := entry.desc.isSome

def cacheGetClientEntrySize (sizes : Sizes) (entry : ClientDescriptor) : ℕ :=
  sizes.clientDescriptor + entry.encodedDesc.length +
    match entry.desc with
    | none => 0
    | some desc => desc.objSize

/-! ### The counter -/

structure Allocation where
  total : ℕ
  haveUnderflowed : Bool
  haveOverflowed : Bool

def sizeMax : ℕ := 2 ^ 64 - 1

def decrementAllocation (n : ℕ) (a : Allocation) : Allocation :=
  if a.total ≥ n then { a with total := a.total - n }
  else { a with total := 0, haveUnderflowed := true }

def incrementAllocation (n : ℕ) (a : Allocation) : Allocation :=
  if a.total ≤ sizeMax - n then { a with total := a.total + n }
  else { a with total := sizeMax, haveOverflowed := true }

theorem incrementAllocation_fits {n : ℕ} {a : Allocation} (h : a.total + n ≤ sizeMax) :
    incrementAllocation n a = { a with total := a.total + n } :=
  if_pos (by omega)

theorem decrementAllocation_covered {n : ℕ} {a : Allocation} (h : n ≤ a.total) :
    decrementAllocation n a = { a with total := a.total - n } :=
  if_pos h

theorem decrementAllocation_remove {α κ : Type*} [DecidableEq κ] {key : α → κ} {size : α → ℕ}
    {l : List α} {e : α} (hkeyed : Keyed key l) (he : e ∈ l) {a : Allocation} {others : ℕ}
    (h : a.total = others + (l.map size).sum) :
    decrementAllocation (size e) a =
      { a with total := others + ((remove key (key e) l).map size).sum } := by
  have hsum := sum_remove size hkeyed he
  rw [decrementAllocation_covered (by omega)]
  congr 1
  omega

theorem incrementAllocation_set {α κ : Type*} [DecidableEq κ] {key : α → κ} {size : α → ℕ}
    {l : List α} {e : α} (hnew : get key (key e) l = none) {a : Allocation} {others : ℕ}
    (h : a.total = others + (l.map size).sum)
    (hfits : others + ((set key e l).map size).sum ≤ sizeMax) :
    incrementAllocation (size e) a =
      { a with total := others + ((set key e l).map size).sum } := by
  have hsum := sum_set size hnew
  rw [incrementAllocation_fits (by omega)]
  congr 1
  omega

structure Cache where
  v3Dir : List DirDescriptor
  v3Client : List ClientDescriptor
  allocation : Allocation

def hsCacheInit : Cache := ⟨[], [], ⟨0, false, false⟩⟩

section Drop

variable {ε : Type*} (key : ε → Block 32) (size : ε → ℕ) (drop : ε → Bool)

/-- One entry of a loop: the map, the counter and the bytes removed so far. -/
def dropEntry (r : List ε × Allocation × ℕ) (entry : ε) : List ε × Allocation × ℕ :=
  if drop entry then
    (remove key (key entry) r.1, decrementAllocation (size entry) r.2.1, r.2.2 + size entry)
  else r

def dropEntries (l : List ε) (a : Allocation) : List ε × Allocation × ℕ :=
  l.foldl (dropEntry key size drop) (l, a, 0)

variable {key size drop}

theorem dropEntry_foldl {todo : List ε} {r : List ε × Allocation × ℕ} {other : ℕ}
    (htodo : Keyed key todo) (hsub : ∀ e ∈ todo, e ∈ r.1) (hkeyed : Keyed key r.1)
    (hsum : r.2.1.total = other + (r.1.map size).sum) :
    Keyed key (todo.foldl (dropEntry key size drop) r).1 ∧
      (∀ e ∈ (todo.foldl (dropEntry key size drop) r).1, e ∈ r.1) ∧
      (todo.foldl (dropEntry key size drop) r).2.1 =
        { r.2.1 with
          total := other + ((todo.foldl (dropEntry key size drop) r).1.map size).sum } := by
  induction todo generalizing r with
  | nil => exact ⟨hkeyed, fun e he => he, by rw [List.foldl_nil, ← hsum]⟩
  | cons e todo ih =>
    have htodo' : Keyed key todo := (List.nodup_cons.mp htodo).2
    have hnotMem : key e ∉ todo.map key := (List.nodup_cons.mp htodo).1
    have he : e ∈ r.1 := hsub e List.mem_cons_self
    rw [List.foldl_cons]
    by_cases hdrop : drop e = true
    · have hstep : dropEntry key size drop r e =
          (remove key (key e) r.1,
            { r.2.1 with total := other + ((remove key (key e) r.1).map size).sum },
            r.2.2 + size e) := by
        rw [dropEntry, if_pos hdrop, decrementAllocation_remove hkeyed he hsum]
      have hsub' : ∀ e' ∈ todo, e' ∈ (dropEntry key size drop r e).1 := by
        intro e' he'
        rw [hstep]
        refine mem_remove.mpr ⟨hsub e' (List.mem_cons_of_mem _ he'), fun heq => ?_⟩
        exact hnotMem (heq ▸ List.mem_map_of_mem he')
      obtain ⟨hk, hmem, halloc⟩ := ih htodo' hsub' (by rw [hstep]; exact hkeyed.remove _)
        (by rw [hstep])
      refine ⟨hk, fun e' he' => ?_, ?_⟩
      · have he'' := hmem e' he'
        rw [hstep] at he''
        exact (mem_remove.mp he'').1
      · rw [halloc, hstep]
    · have hstep : dropEntry key size drop r e = r := if_neg hdrop
      rw [hstep]
      exact ih htodo' (fun e' he' => hsub e' (List.mem_cons_of_mem _ he')) hkeyed hsum

variable (drop) in
theorem dropEntries_spec {l : List ε} {a : Allocation} {other : ℕ} (hkeyed : Keyed key l)
    (hsum : a.total = other + (l.map size).sum) :
    Keyed key (dropEntries key size drop l a).1 ∧
      (∀ e ∈ (dropEntries key size drop l a).1, e ∈ l) ∧
      (dropEntries key size drop l a).2.1 =
        { a with total := other + ((dropEntries key size drop l a).1.map size).sum } :=
  dropEntry_foldl (r := (l, a, 0)) hkeyed (fun _ he => he) hkeyed hsum

end Drop

variable (sizes : Sizes)

/-! ### The directory's cache -/

def cacheStoreV3AsDir (desc : DirDescriptor) (C : Cache) : Cache × ℤ :=
  match get DirDescriptor.key desc.key C.v3Dir with
  | none =>
    ({ C with
        v3Dir := set DirDescriptor.key desc C.v3Dir
        allocation := incrementAllocation (cacheGetDirEntrySize sizes desc) C.allocation }, 0)
  | some cacheEntry =>
    if cacheEntry.plaintextData.revisionCounter ≥ desc.plaintextData.revisionCounter then (C, -1)
    else
      ({ C with
          v3Dir := set DirDescriptor.key desc (remove DirDescriptor.key cacheEntry.key C.v3Dir)
          allocation := incrementAllocation (cacheGetDirEntrySize sizes desc)
            (decrementAllocation (cacheGetDirEntrySize sizes cacheEntry) C.allocation) }, 0)

/-- `decoded` is what the plaintext part of the descriptor was decoded to. -/
def hsCacheStoreAsDir (encodedDesc : Bytes) (decoded : Option PlaintextData) (now : ℤ) (C : Cache) :
    Cache × ℤ :=
  match decoded with
  | none => (C, -1)
  | some plaintextData => cacheStoreV3AsDir sizes ⟨plaintextData, encodedDesc, now⟩ C

def dirEntryExpired (now globalCutoff : ℤ) (entry : DirDescriptor) : Bool :=
  let cutoff := if globalCutoff = 0 then now - entry.plaintextData.lifetimeSec else globalCutoff
  !decide (entry.createdTs > cutoff)

def cacheCleanV3AsDir (now globalCutoff : ℤ) (C : Cache) : Cache × ℕ :=
  let r := dropEntries DirDescriptor.key (cacheGetDirEntrySize sizes)
    (dirEntryExpired now globalCutoff) C.v3Dir C.allocation
  ({ C with v3Dir := r.1, allocation := r.2.1 }, r.2.2)

def hsCacheCleanAsDir (now : ℤ) (C : Cache) : Cache := (cacheCleanV3AsDir sizes now 0 C).1

def hsCacheMaxEntryLifetime : ℤ := 2 * 24 * 60 * 60 + 24 * 60 * 60

def oomStep (testingTorNetwork : Bool) : ℤ := if testingTorNetwork then 120 else 3600

def handleOomLoop (testingTorNetwork : Bool) (now : ℤ) (minRemoveBytes : ℕ) (k : ℤ)
    (r : Cache × ℕ) : Cache × ℕ :=
  if k < 0 then r
  else
    let cleaned := cacheCleanV3AsDir sizes now (now - k) r.1
    let bytesRemoved := r.2 + cleaned.2
    if bytesRemoved < minRemoveBytes then
      handleOomLoop testingTorNetwork now minRemoveBytes (k - oomStep testingTorNetwork)
        (cleaned.1, bytesRemoved)
    else (cleaned.1, bytesRemoved)
termination_by (k + 1).toNat
decreasing_by
  simp only [oomStep]
  split_ifs <;> omega

def hsCacheHandleOom (testingTorNetwork : Bool) (now : ℤ) (minRemoveBytes : ℕ) (C : Cache) :
    Cache × ℕ :=
  handleOomLoop sizes testingTorNetwork now minRemoveBytes hsCacheMaxEntryLifetime (C, 0)

/-! ### The client's cache -/

/-- `liveValidAfter` is that of a reasonably live consensus. -/
def cachedClientDescriptorHasExpired (liveValidAfter : Option ℤ) (cachedDesc : ClientDescriptor) :
    Bool :=
  match liveValidAfter with
  | none => true
  | some validAfter => decide (cachedDesc.expirationTs ≤ validAfter)

def removeV3DescAsClient (desc : ClientDescriptor) (C : Cache) : Cache :=
  { C with
    v3Client := remove ClientDescriptor.key desc.key C.v3Client
    allocation := decrementAllocation (cacheGetClientEntrySize sizes desc) C.allocation }

/-- An entry that is overwritten is freed, and the counter is not told. -/
def storeV3DescAsClient (desc : ClientDescriptor) (C : Cache) : Cache :=
  { C with
    v3Client := set ClientDescriptor.key desc C.v3Client
    allocation := incrementAllocation (cacheGetClientEntrySize sizes desc) C.allocation }

def lookupV3DescAsClient (liveValidAfter : Option ℤ) (key : Block 32) (C : Cache) :
    Option ClientDescriptor :=
  match get ClientDescriptor.key key C.v3Client with
  | none => none
  | some cachedDesc =>
    if cachedClientDescriptorHasExpired liveValidAfter cachedDesc then none else some cachedDesc

def cacheStoreAsClient (liveValidAfter : Option ℤ) (clientDesc : ClientDescriptor) (C : Cache) :
    Cache :=
  match lookupV3DescAsClient liveValidAfter clientDesc.key C with
  | none => storeV3DescAsClient sizes clientDesc C
  | some cacheEntry =>
    match cacheEntry.desc, clientDesc.desc with
    | some old, some new =>
      if old.revisionCounter > new.revisionCounter then C
      else storeV3DescAsClient sizes clientDesc (removeV3DescAsClient sizes cacheEntry C)
    | _, _ => storeV3DescAsClient sizes clientDesc (removeV3DescAsClient sizes cacheEntry C)

/-- What decoding a descriptor with the client authorization there is gives. -/
inductive DecodeOutcome
  | ok (desc : HsDescriptor)
  | needClientAuth
  | badClientAuth
  | error

def cacheClientDescNew (encodedDesc : Bytes) (key : Block 32) (expirationTs : ℤ) :
    DecodeOutcome → Option ClientDescriptor
  | .ok desc => some ⟨key, expirationTs, some desc, encodedDesc⟩
  | .needClientAuth => some ⟨key, expirationTs, none, encodedDesc⟩
  | .badClientAuth => some ⟨key, expirationTs, none, encodedDesc⟩
  | .error => none

def hsCacheStoreAsClient (liveValidAfter : Option ℤ) (encodedDesc : Bytes) (key : Block 32)
    (expirationTs : ℤ) (outcome : DecodeOutcome) (C : Cache) : Cache :=
  match cacheClientDescNew encodedDesc key expirationTs outcome with
  | none => C
  | some clientDesc => cacheStoreAsClient sizes liveValidAfter clientDesc C

def hsCacheRemoveAsClient (liveValidAfter : Option ℤ) (key : Block 32) (C : Cache) : Cache :=
  match lookupV3DescAsClient liveValidAfter key C with
  | none => C
  | some cachedDesc => removeV3DescAsClient sizes cachedDesc C

def dropClientEntries (drop : ClientDescriptor → Bool) (C : Cache) : Cache × ℕ :=
  let r := dropEntries ClientDescriptor.key (cacheGetClientEntrySize sizes) drop C.v3Client
    C.allocation
  ({ C with v3Client := r.1, allocation := r.2.1 }, r.2.2)

def cacheCleanV3AsClient (liveValidAfter : Option ℤ) : Cache → Cache × ℕ :=
  dropClientEntries sizes (cachedClientDescriptorHasExpired liveValidAfter)

def hsCachePurgeAsClient (C : Cache) : Cache := (dropClientEntries sizes (fun _ => true) C).1

def hsCacheClientNewAuthParse (liveValidAfter : Option ℤ) (key : Block 32) (outcome : DecodeOutcome)
    (C : Cache) : Cache × Bool :=
  match lookupV3DescAsClient liveValidAfter key C with
  | none => (C, false)
  | some cachedDesc =>
    if entryHasDecryptedDescriptor cachedDesc then (C, false)
    else
      match outcome with
      | .ok desc =>
        ({ C with
            v3Client := C.v3Client.map fun e =>
              if e.key = key then { e with desc := some desc } else e }, true)
      | _ => (C, false)

/-! ### Runs -/

def sumDir (C : Cache) : ℕ := (C.v3Dir.map (cacheGetDirEntrySize sizes)).sum

def sumClient (C : Cache) : ℕ := (C.v3Client.map (cacheGetClientEntrySize sizes)).sum

/-- Lookups are functions of the cache and are not among them. -/
inductive HsCacheAction
  | storeAsDir (encodedDesc : Bytes) (decoded : Option PlaintextData) (now : ℤ)
  | cleanAsDir (now : ℤ)
  | handleOom (testingTorNetwork : Bool) (now : ℤ) (minRemoveBytes : ℕ)
  | storeAsClient (liveValidAfter : Option ℤ) (encodedDesc : Bytes) (key : Block 32)
      (expirationTs : ℤ) (outcome : DecodeOutcome)
  | removeAsClient (liveValidAfter : Option ℤ) (key : Block 32)
  | cleanAsClient (liveValidAfter : Option ℤ)
  | purgeAsClient
  | clientNewAuthParse (liveValidAfter : Option ℤ) (key : Block 32) (outcome : DecodeOutcome)

def perform (C : Cache) : HsCacheAction → Cache
  | .storeAsDir encodedDesc decoded now => (hsCacheStoreAsDir sizes encodedDesc decoded now C).1
  | .cleanAsDir now => hsCacheCleanAsDir sizes now C
  | .handleOom testingTorNetwork now minRemoveBytes =>
    (hsCacheHandleOom sizes testingTorNetwork now minRemoveBytes C).1
  | .storeAsClient liveValidAfter encodedDesc key expirationTs outcome =>
    hsCacheStoreAsClient sizes liveValidAfter encodedDesc key expirationTs outcome C
  | .removeAsClient liveValidAfter key => hsCacheRemoveAsClient sizes liveValidAfter key C
  | .cleanAsClient liveValidAfter => (cacheCleanV3AsClient sizes liveValidAfter C).1
  | .purgeAsClient => hsCachePurgeAsClient sizes C
  | .clientNewAuthParse liveValidAfter key outcome =>
    (hsCacheClientNewAuthParse liveValidAfter key outcome C).1

/-- What is in the caches is in memory, and the assertions of the OOM handler hold. -/
def hsCacheSystem : System Cache HsCacheAction where
  init C := C = hsCacheInit
  step C a C' :=
    (match a with
      | .handleOom _ now minRemoveBytes => 0 < minRemoveBytes ∧ hsCacheMaxEntryLifetime ≤ now
      | _ => True) ∧
    C' = perform sizes C a ∧ sumDir sizes C' + sumClient sizes C' ≤ sizeMax

/-- No expired entry is overwritten, and none is decrypted where it stands. -/
def SizesKept (C : Cache) : HsCacheAction → Prop
  | .storeAsClient liveValidAfter _ key _ outcome =>
    outcome = .error ∨ ∀ e, get ClientDescriptor.key key C.v3Client = some e →
      cachedClientDescriptorHasExpired liveValidAfter e = false
  | .clientNewAuthParse liveValidAfter key outcome =>
    (hsCacheClientNewAuthParse liveValidAfter key outcome C).2 = false
  | _ => True

structure Accounted (C : Cache) : Prop where
  dirKeyed : Keyed DirDescriptor.key C.v3Dir
  clientKeyed : Keyed ClientDescriptor.key C.v3Client
  total : C.allocation.total = sumDir sizes C + sumClient sizes C
  notUnderflowed : C.allocation.haveUnderflowed = false
  notOverflowed : C.allocation.haveOverflowed = false

variable {sizes} {C : Cache}

theorem accounted_init : Accounted sizes hsCacheInit :=
  ⟨List.nodup_nil, List.nodup_nil, rfl, rfl, rfl⟩

theorem Accounted.total_dir (h : Accounted sizes C) :
    C.allocation.total = sumClient sizes C + (C.v3Dir.map (cacheGetDirEntrySize sizes)).sum :=
  h.total.trans (Nat.add_comm _ _)

theorem Accounted.removeDir {e : DirDescriptor} (h : Accounted sizes C) (he : e ∈ C.v3Dir) :
    Accounted sizes
      { C with
        v3Dir := remove DirDescriptor.key e.key C.v3Dir
        allocation := decrementAllocation (cacheGetDirEntrySize sizes e) C.allocation } := by
  rw [decrementAllocation_remove h.dirKeyed he h.total_dir]
  exact ⟨h.dirKeyed.remove _, h.clientKeyed, Nat.add_comm _ _, h.notUnderflowed, h.notOverflowed⟩

theorem Accounted.setDir {e : DirDescriptor} (h : Accounted sizes C)
    (hnew : get DirDescriptor.key e.key C.v3Dir = none)
    (hfits : ((set DirDescriptor.key e C.v3Dir).map (cacheGetDirEntrySize sizes)).sum +
      sumClient sizes C ≤ sizeMax) :
    Accounted sizes
      { C with
        v3Dir := set DirDescriptor.key e C.v3Dir
        allocation := incrementAllocation (cacheGetDirEntrySize sizes e) C.allocation } := by
  rw [incrementAllocation_set hnew h.total_dir (by rwa [Nat.add_comm])]
  exact ⟨h.dirKeyed.set _, h.clientKeyed, Nat.add_comm _ _, h.notUnderflowed, h.notOverflowed⟩

theorem Accounted.removeClient {e : ClientDescriptor} (h : Accounted sizes C) (he : e ∈ C.v3Client) :
    Accounted sizes (removeV3DescAsClient sizes e C) := by
  rw [removeV3DescAsClient, decrementAllocation_remove h.clientKeyed he h.total]
  exact ⟨h.dirKeyed, h.clientKeyed.remove _, rfl, h.notUnderflowed, h.notOverflowed⟩

theorem Accounted.setClient {e : ClientDescriptor} (h : Accounted sizes C)
    (hnew : get ClientDescriptor.key e.key C.v3Client = none)
    (hfits : sumDir sizes (storeV3DescAsClient sizes e C) +
      sumClient sizes (storeV3DescAsClient sizes e C) ≤ sizeMax) :
    Accounted sizes (storeV3DescAsClient sizes e C) := by
  rw [storeV3DescAsClient, incrementAllocation_set hnew h.total hfits]
  exact ⟨h.dirKeyed, h.clientKeyed.set _, rfl, h.notUnderflowed, h.notOverflowed⟩

/-! ### Steps -/

theorem accounted_hsCacheStoreAsDir {encodedDesc : Bytes} {decoded : Option PlaintextData} {now : ℤ}
    (h : Accounted sizes C)
    (hfits : sumDir sizes (hsCacheStoreAsDir sizes encodedDesc decoded now C).1 +
      sumClient sizes (hsCacheStoreAsDir sizes encodedDesc decoded now C).1 ≤ sizeMax) :
    Accounted sizes (hsCacheStoreAsDir sizes encodedDesc decoded now C).1 := by
  cases decoded with
  | none => exact h
  | some plaintextData =>
    rw [hsCacheStoreAsDir] at hfits ⊢
    unfold cacheStoreV3AsDir at hfits ⊢
    split at hfits
    · next hnone => exact h.setDir hnone hfits
    · next e hget =>
      obtain ⟨he, hkey⟩ := mem_of_get hget
      split_ifs at hfits ⊢ with hrev
      · exact h
      · refine (h.removeDir he).setDir ?_ hfits
        exact List.find?_eq_none.mpr fun e' he' => by
          simpa [hkey] using (mem_remove.mp he').2

theorem accounted_cacheCleanV3AsDir {now globalCutoff : ℤ} (h : Accounted sizes C) :
    Accounted sizes (cacheCleanV3AsDir sizes now globalCutoff C).1 := by
  obtain ⟨hkeyed, -, halloc⟩ :=
    dropEntries_spec (dirEntryExpired now globalCutoff) h.dirKeyed h.total_dir
  refine ⟨hkeyed, h.clientKeyed, ?_, ?_, ?_⟩
  · rw [cacheCleanV3AsDir, halloc]
    exact Nat.add_comm _ _
  · rw [cacheCleanV3AsDir, halloc]
    exact h.notUnderflowed
  · rw [cacheCleanV3AsDir, halloc]
    exact h.notOverflowed

theorem accounted_handleOomLoop {testingTorNetwork : Bool} {now : ℤ} {minRemoveBytes : ℕ} (k : ℤ)
    (r : Cache × ℕ) (h : Accounted sizes r.1) :
    Accounted sizes (handleOomLoop sizes testingTorNetwork now minRemoveBytes k r).1 := by
  induction k, r using handleOomLoop.induct sizes testingTorNetwork now minRemoveBytes with
  | case1 k r hk =>
    rw [handleOomLoop, if_pos hk]
    exact h
  | case2 k r hk cleaned bytesRemoved hless ih =>
    rw [handleOomLoop, if_neg hk]
    simp only
    rw [if_pos hless]
    exact ih (accounted_cacheCleanV3AsDir h)
  | case3 k r hk cleaned bytesRemoved hdone =>
    rw [handleOomLoop, if_neg hk]
    simp only
    rw [if_neg hdone]
    exact accounted_cacheCleanV3AsDir h

theorem lookup_eq_some {liveValidAfter : Option ℤ} {key : Block 32} {e : ClientDescriptor}
    (h : lookupV3DescAsClient liveValidAfter key C = some e) :
    get ClientDescriptor.key key C.v3Client = some e := by
  unfold lookupV3DescAsClient at h
  split at h
  · cases h
  · next e' hget =>
    split_ifs at h
    rw [hget, h]

theorem cacheClientDescNew_key {encodedDesc : Bytes} {key : Block 32} {expirationTs : ℤ}
    {outcome : DecodeOutcome} {e : ClientDescriptor}
    (h : cacheClientDescNew encodedDesc key expirationTs outcome = some e) : e.key = key := by
  cases outcome <;> cases h <;> rfl

theorem accounted_cacheStoreAsClient {liveValidAfter : Option ℤ} {e : ClientDescriptor}
    (h : Accounted sizes C)
    (hlive : ∀ e', get ClientDescriptor.key e.key C.v3Client = some e' →
      cachedClientDescriptorHasExpired liveValidAfter e' = false)
    (hfits : sumDir sizes (cacheStoreAsClient sizes liveValidAfter e C) +
      sumClient sizes (cacheStoreAsClient sizes liveValidAfter e C) ≤ sizeMax) :
    Accounted sizes (cacheStoreAsClient sizes liveValidAfter e C) := by
  have hreplace : ∀ old, lookupV3DescAsClient liveValidAfter e.key C = some old →
      sumDir sizes (storeV3DescAsClient sizes e (removeV3DescAsClient sizes old C)) +
        sumClient sizes (storeV3DescAsClient sizes e (removeV3DescAsClient sizes old C)) ≤ sizeMax →
      Accounted sizes (storeV3DescAsClient sizes e (removeV3DescAsClient sizes old C)) := by
    intro old hold hfits
    obtain ⟨hmem, hkey⟩ := mem_of_get (lookup_eq_some hold)
    refine (h.removeClient hmem).setClient ?_ hfits
    exact List.find?_eq_none.mpr fun e' he' => by simpa [hkey] using (mem_remove.mp he').2
  unfold cacheStoreAsClient at hfits ⊢
  split at hfits
  · next hnone =>
    refine h.setClient ?_ hfits
    cases hget : get ClientDescriptor.key e.key C.v3Client with
    | none => rfl
    | some e' =>
      rw [lookupV3DescAsClient, hget] at hnone
      simp only [hlive e' hget, Bool.false_eq_true, if_false] at hnone
      cases hnone
  · next old hold =>
    split at hfits
    · split_ifs at hfits ⊢ with hrev
      · exact h
      · exact hreplace old hold hfits
    · exact hreplace old hold hfits

theorem accounted_dropClientEntries {drop : ClientDescriptor → Bool} (h : Accounted sizes C) :
    Accounted sizes (dropClientEntries sizes drop C).1 := by
  obtain ⟨hkeyed, -, halloc⟩ := dropEntries_spec drop h.clientKeyed h.total
  refine ⟨h.dirKeyed, hkeyed, ?_, ?_, ?_⟩
  · rw [dropClientEntries, halloc]
    rfl
  · rw [dropClientEntries, halloc]
    exact h.notUnderflowed
  · rw [dropClientEntries, halloc]
    exact h.notOverflowed

theorem accounted_step {a : HsCacheAction} {C' : Cache} (h : Accounted sizes C)
    (hkept : SizesKept C a) (hstep : (hsCacheSystem sizes).step C a C') : Accounted sizes C' := by
  obtain ⟨-, rfl, hfits⟩ := hstep
  cases a with
  | storeAsDir encodedDesc decoded now => exact accounted_hsCacheStoreAsDir h hfits
  | cleanAsDir now => exact accounted_cacheCleanV3AsDir h
  | handleOom testingTorNetwork now minRemoveBytes => exact accounted_handleOomLoop _ (C, 0) h
  | storeAsClient liveValidAfter encodedDesc key expirationTs outcome =>
    rw [perform, hsCacheStoreAsClient] at hfits ⊢
    split at hfits
    · exact h
    · next e he =>
      have hkey := cacheClientDescNew_key he
      obtain rfl | hlive := hkept
      · cases he
      · exact accounted_cacheStoreAsClient h (hkey ▸ hlive) hfits
  | removeAsClient liveValidAfter key =>
    rw [perform, hsCacheRemoveAsClient]
    split
    · exact h
    · next e he => exact h.removeClient (mem_of_get (lookup_eq_some he)).1
  | cleanAsClient liveValidAfter => exact accounted_dropClientEntries h
  | purgeAsClient => exact accounted_dropClientEntries h
  | clientNewAuthParse liveValidAfter key outcome =>
    have hsame : hsCacheClientNewAuthParse liveValidAfter key outcome C = (C, false) := by
      rw [SizesKept] at hkept
      unfold hsCacheClientNewAuthParse at hkept ⊢
      split at hkept
      · rfl
      · split_ifs at hkept ⊢
        · rfl
        · split at hkept
          · cases hkept
          · rfl
    rw [perform, hsame]
    exact h

/-! ### What is replaced in the directory's cache -/

/-- What is there under a key afterwards was there, or is newer than what was. -/
def Newer (l l' : List DirDescriptor) : Prop :=
  ∀ e ∈ l, ∀ e' ∈ l', e'.key = e.key →
    e' = e ∨ e.plaintextData.revisionCounter < e'.plaintextData.revisionCounter

theorem newer_of_subset {l l' : List DirDescriptor} (hkeyed : Keyed DirDescriptor.key l)
    (hsub : ∀ e ∈ l', e ∈ l) : Newer l l' :=
  fun _ he e' he' hkey => .inl (hkeyed.eq (hsub e' he') he hkey)

theorem newer_hsCacheStoreAsDir {encodedDesc : Bytes} {decoded : Option PlaintextData} {now : ℤ}
    (h : Accounted sizes C) :
    Newer C.v3Dir (hsCacheStoreAsDir sizes encodedDesc decoded now C).1.v3Dir := by
  have hrefl : Newer C.v3Dir C.v3Dir := newer_of_subset h.dirKeyed fun _ he => he
  cases decoded with
  | none => exact hrefl
  | some plaintextData =>
    rw [hsCacheStoreAsDir]
    unfold cacheStoreV3AsDir
    split
    · next hnone =>
      intro e he e' he' hkey
      obtain ⟨hmem, -⟩ | rfl := mem_set.mp he'
      · exact hrefl e he e' hmem hkey
      · exact absurd hkey.symm (key_ne_of_get_none hnone he)
    · next old hget =>
      obtain ⟨hold, holdKey⟩ := mem_of_get hget
      split_ifs with hrev
      · exact hrefl
      · intro e he e' he' hkey
        obtain ⟨hmem, -⟩ | rfl := mem_set.mp he'
        · exact hrefl e he e' (mem_remove.mp hmem).1 hkey
        · obtain rfl := h.dirKeyed.eq hold he (holdKey.trans hkey)
          exact .inr (not_le.mp hrev)

theorem subset_cacheCleanV3AsDir {now globalCutoff : ℤ} (h : Accounted sizes C) :
    ∀ e ∈ (cacheCleanV3AsDir sizes now globalCutoff C).1.v3Dir, e ∈ C.v3Dir := by
  have hsum : C.allocation.total =
      sumClient sizes C + (C.v3Dir.map (cacheGetDirEntrySize sizes)).sum := by
    rw [h.total, Nat.add_comm, sumDir]
  exact (dropEntries_spec (dirEntryExpired now globalCutoff) h.dirKeyed hsum).2.1

theorem subset_handleOomLoop {testingTorNetwork : Bool} {now : ℤ} {minRemoveBytes : ℕ} (k : ℤ)
    (r : Cache × ℕ) (h : Accounted sizes r.1) :
    ∀ e ∈ (handleOomLoop sizes testingTorNetwork now minRemoveBytes k r).1.v3Dir,
      e ∈ r.1.v3Dir := by
  induction k, r using handleOomLoop.induct sizes testingTorNetwork now minRemoveBytes with
  | case1 k r hk =>
    rw [handleOomLoop, if_pos hk]
    exact fun _ he => he
  | case2 k r hk cleaned bytesRemoved hless ih =>
    rw [handleOomLoop, if_neg hk]
    simp only
    rw [if_pos hless]
    exact fun e he =>
      subset_cacheCleanV3AsDir h e (ih (accounted_cacheCleanV3AsDir h) e he)
  | case3 k r hk cleaned bytesRemoved hdone =>
    rw [handleOomLoop, if_neg hk]
    simp only
    rw [if_neg hdone]
    exact subset_cacheCleanV3AsDir h

theorem v3Dir_cacheStoreAsClient {liveValidAfter : Option ℤ} {e : ClientDescriptor} :
    (cacheStoreAsClient sizes liveValidAfter e C).v3Dir = C.v3Dir := by
  unfold cacheStoreAsClient
  split
  · rfl
  · split
    · split_ifs <;> rfl
    · rfl

theorem newer_step {a : HsCacheAction} {C' : Cache} (h : Accounted sizes C)
    (hstep : (hsCacheSystem sizes).step C a C') : Newer C.v3Dir C'.v3Dir := by
  obtain ⟨-, rfl, -⟩ := hstep
  have hrefl : Newer C.v3Dir C.v3Dir := newer_of_subset h.dirKeyed fun _ he => he
  cases a with
  | storeAsDir encodedDesc decoded now => exact newer_hsCacheStoreAsDir h
  | cleanAsDir now => exact newer_of_subset h.dirKeyed (subset_cacheCleanV3AsDir h)
  | handleOom testingTorNetwork now minRemoveBytes =>
    exact newer_of_subset h.dirKeyed (subset_handleOomLoop _ (C, 0) h)
  | storeAsClient liveValidAfter encodedDesc key expirationTs outcome =>
    rw [perform, hsCacheStoreAsClient]
    split
    · exact hrefl
    · rw [v3Dir_cacheStoreAsClient]
      exact hrefl
  | removeAsClient liveValidAfter key =>
    rw [perform, hsCacheRemoveAsClient]
    split
    · exact hrefl
    · exact hrefl
  | cleanAsClient liveValidAfter => exact hrefl
  | purgeAsClient => exact hrefl
  | clientNewAuthParse liveValidAfter key outcome =>
    rw [perform]
    unfold hsCacheClientNewAuthParse
    split
    · exact hrefl
    · split_ifs
      · exact hrefl
      · cases outcome <;> exact hrefl

theorem accounted_reached (hr : Reached (hsCacheSystem sizes) SizesKept C) : Accounted sizes C :=
  hr.invariant
    { init := by
        rintro _ rfl
        exact accounted_init
      step := fun _ _ _ => accounted_step }

/-- What holds in every run that keeps the sizes. -/
theorem allocation_kept (hr : Reached (hsCacheSystem sizes) SizesKept C) :
    C.allocation.total = sumDir sizes C + sumClient sizes C ∧
      C.allocation.haveUnderflowed = false ∧
      (C.v3Dir = [] → C.v3Client = [] → C.allocation.total = 0) ∧
      ∀ a C', SizesKept C a → (hsCacheSystem sizes).step C a C' →
        C'.allocation.haveUnderflowed = false ∧ Newer C.v3Dir C'.v3Dir := by
  have h := accounted_reached hr
  refine ⟨h.total, h.notUnderflowed, fun hdir hclient => ?_, fun a C' hkept hstep => ?_⟩
  · rw [h.total, sumDir, sumClient, hdir, hclient]
    rfl
  · exact ⟨(accounted_step h hkept hstep).notUnderflowed, newer_step h hstep⟩

/-! ### A descriptor that is decrypted later -/

def exampleSizes : Sizes := ⟨100, 100⟩

def encryptedAction : HsCacheAction :=
  .storeAsClient (some 0) [1, 2, 3] (Bytes.zeroFill 32 []) 10 .needClientAuth

def authParseAction : HsCacheAction := .clientNewAuthParse (some 0) (Bytes.zeroFill 32 []) (.ok ⟨1, 50⟩)

def storedCache : Cache := perform exampleSizes hsCacheInit encryptedAction

theorem stored_step : (hsCacheSystem exampleSizes).step hsCacheInit encryptedAction storedCache :=
  ⟨trivial, rfl, by decide⟩

theorem parsed_step : (hsCacheSystem exampleSizes).step storedCache authParseAction
    (perform exampleSizes storedCache authParseAction) :=
  ⟨trivial, rfl, by decide⟩

theorem encrypted_accounted : storedCache.allocation.total = 103 := by
  have hkept : SizesKept hsCacheInit encryptedAction := Or.inr fun _ h => by cases h
  exact (allocation_kept (.step (.init rfl) hkept stored_step)).1.trans (by decide)

/-- The entry grows and the counter does not. -/
theorem decrypted_unaccounted :
    ¬ ∀ C, Reached (hsCacheSystem exampleSizes) (fun _ _ => True) C →
      C.allocation.total = sumDir exampleSizes C + sumClient exampleSizes C ∧
        C.allocation.haveUnderflowed = false := by
  intro hall
  have hstored : Reached (hsCacheSystem exampleSizes) (fun _ _ => True) storedCache :=
    .step (.init rfl) trivial stored_step
  have htotal := (hall _ (hstored.step trivial parsed_step)).1
  revert htotal
  decide

end HsCache
