/-
The layered encryption of relay cells.

The origin and each hop of a circuit keep, for each direction, a stream cipher
and a running digest made from the same key material.  A cell for hop `k` is
signed with the digest of that hop and wrapped in the layers of the hops up to
`k`, the farthest first; every hop takes one layer off and asks its digest
whether the cell is its own.  A cell from hop `k` gains a layer at every hop on
the way back, and the origin takes them off from the nearest to the farthest.

Nothing but the order of the cells keeps the two ends together.  What is shown
is that it does: after any sequence of cells, of both directions and of any
hops, the next one is recognized where it should be and nowhere before, and
both ends have advanced alike (`cells_recognized`).
-/
import Mathlib
import LibEltor.Transition

namespace RelayCrypto

variable {σ τ β : Type*}

/-- The payload of a relay cell: the two header fields that relays look at, and
the rest of the header and the data. -/
structure RelayPayload (τ β : Type*) where
  recognized : ℕ
  integrity : τ
  rest : β

/-- A stream cipher: what is done to a payload at each place of the keystream.
Encrypting and decrypting are one operation. -/
structure StreamCipher (τ β : Type*) where
  crypt : ℕ → RelayPayload τ β → RelayPayload τ β
  crypt_crypt : ∀ n p, crypt n (crypt n p) = p

/-- A cipher in use, with the number of payloads it has been applied to. -/
structure CryptoCipher (τ β : Type*) where
  cipher : StreamCipher τ β
  pos : ℕ

/-- A running digest: the key material it began with and what was added since. -/
structure CryptoDigest (σ τ β : Type*) where
  seed : σ
  added : List (RelayPayload τ β)

inductive CellDirection
  | out
  | in
  deriving DecidableEq

structure RelayCryptoT (σ τ β : Type*) where
  f_crypto : CryptoCipher τ β
  b_crypto : CryptoCipher τ β
  f_digest : CryptoDigest σ τ β
  b_digest : CryptoDigest σ τ β

inductive CpathState
  | closed
  | awaitingKeys
  | open
  deriving DecidableEq

structure CryptPath (σ τ β : Type*) where
  state : CpathState
  pvt_crypto : RelayCryptoT σ τ β

namespace CryptoDigest

def addBytes (D : CryptoDigest σ τ β) (p : RelayPayload τ β) : CryptoDigest σ τ β :=
  { D with added := D.added ++ [p] }

end CryptoDigest

/-! ### Ciphers and digests of one direction -/

def relayCryptOnePayload (c : CryptoCipher τ β) (p : RelayPayload τ β) :
    CryptoCipher τ β × RelayPayload τ β :=
  ({ c with pos := c.pos + 1 }, c.cipher.crypt c.pos p)

namespace RelayCryptoT

def cryptoOf (C : RelayCryptoT σ τ β) : CellDirection → CryptoCipher τ β
  | .out => C.f_crypto
  | .in => C.b_crypto

def digestOf (C : RelayCryptoT σ τ β) : CellDirection → CryptoDigest σ τ β
  | .out => C.f_digest
  | .in => C.b_digest

def setCrypto (C : RelayCryptoT σ τ β) (c : CryptoCipher τ β) :
    CellDirection → RelayCryptoT σ τ β
  | .out => { C with f_crypto := c }
  | .in => { C with b_crypto := c }

def setDigest (C : RelayCryptoT σ τ β) (D : CryptoDigest σ τ β) :
    CellDirection → RelayCryptoT σ τ β
  | .out => { C with f_digest := D }
  | .in => { C with b_digest := D }

def cryptCell (d : CellDirection) (C : RelayCryptoT σ τ β) (p : RelayPayload τ β) :
    RelayCryptoT σ τ β × RelayPayload τ β :=
  let (c, p') := relayCryptOnePayload (C.cryptoOf d) p
  (C.setCrypto c d, p')

variable (C : RelayCryptoT σ τ β) (c : CryptoCipher τ β) (D : CryptoDigest σ τ β)
  (d : CellDirection) (p : RelayPayload τ β)

@[simp] theorem cryptoOf_setCrypto : (C.setCrypto c d).cryptoOf d = c := by cases d <;> rfl
@[simp] theorem cryptoOf_setDigest : (C.setDigest D d).cryptoOf d = C.cryptoOf d := by
  cases d <;> rfl
@[simp] theorem digestOf_setDigest : (C.setDigest D d).digestOf d = D := by cases d <;> rfl
@[simp] theorem digestOf_setCrypto : (C.setCrypto c d).digestOf d = C.digestOf d := by
  cases d <;> rfl
@[simp] theorem setDigest_digestOf : C.setDigest (C.digestOf d) d = C := by cases d <;> rfl

end RelayCryptoT

section Digests

variable [Zero τ] (digest : σ → List (RelayPayload τ β) → τ)

def cryptoDigestGetDigest (D : CryptoDigest σ τ β) : τ := digest D.seed D.added

def relaySetDigest (D : CryptoDigest σ τ β) (cell : RelayPayload τ β) :
    CryptoDigest σ τ β × RelayPayload τ β :=
  let D' := D.addBytes cell
  (D', { cell with integrity := cryptoDigestGetDigest digest D' })

/-- Does the digest say that this cell is for us?  If it does not, the digest and
the cell are as before. -/
def relayDigestMatches [DecidableEq τ] (D : CryptoDigest σ τ β) (cell : RelayPayload τ β) :
    Bool × CryptoDigest σ τ β × RelayPayload τ β :=
  let received := cell.integrity
  let cell' : RelayPayload τ β := { cell with integrity := 0 }
  let D' := D.addBytes cell'
  if cryptoDigestGetDigest digest D' ≠ received then
    (false, D, { cell' with integrity := received })
  else
    (true, D', cell')

/-- One layer off, then a look at the recognized field and at the digest. -/
def takeLayer [DecidableEq τ] (d : CellDirection) (C : RelayCryptoT σ τ β)
    (cell : RelayPayload τ β) : Bool × RelayCryptoT σ τ β × RelayPayload τ β :=
  let (C', cell') := C.cryptCell d cell
  if cell'.recognized = 0 then
    let (rv, D, cell'') := relayDigestMatches digest (C'.digestOf d) cell'
    (rv, C'.setDigest D d, cell'')
  else
    (false, C', cell')

/-- At the origin: for the hops in order, one layer off; stop where it is
recognized.  `none` is the error that closes the circuit. -/
def relayDecryptCellOrigin [DecidableEq τ] :
    List (CryptPath σ τ β) → RelayPayload τ β →
      List (CryptPath σ τ β) × Option (ℕ × RelayPayload τ β)
  | [], _ => ([], none)
  | thishop :: next, cell =>
    if thishop.state = .open then
      match takeLayer digest .in thishop.pvt_crypto cell with
      | (true, C, cell') => ({ thishop with pvt_crypto := C } :: next, some (0, cell'))
      | (false, C, cell') =>
        let (next', r) := relayDecryptCellOrigin next cell'
        ({ thishop with pvt_crypto := C } :: next', r.map fun r => (r.1 + 1, r.2))
    else (thishop :: next, none)

def relayDecryptCellOr [DecidableEq τ] (crypto : RelayCryptoT σ τ β) (cell : RelayPayload τ β) :
    CellDirection → Bool × RelayCryptoT σ τ β × RelayPayload τ β
  | .in => let (C, cell') := crypto.cryptCell .in cell; (false, C, cell')
  | .out => takeLayer digest .out crypto cell

/-- The layers of the hops up to number `k`, from the farthest to the nearest. -/
def cryptFromFarthest (d : CellDirection) :
    List (RelayCryptoT σ τ β) → ℕ → RelayPayload τ β →
      List (RelayCryptoT σ τ β) × RelayPayload τ β
  | [], _, cell => ([], cell)
  | C :: Cs, 0, cell => let (C', cell') := C.cryptCell d cell; (C' :: Cs, cell')
  | C :: Cs, k + 1, cell =>
    let (Cs', cell') := cryptFromFarthest d Cs k cell
    let (C', cell'') := C.cryptCell d cell'
    (C' :: Cs', cell'')

def setDigestAt (d : CellDirection) :
    List (RelayCryptoT σ τ β) → ℕ → RelayPayload τ β →
      List (RelayCryptoT σ τ β) × RelayPayload τ β
  | [], _, cell => ([], cell)
  | C :: Cs, 0, cell =>
    let (D, cell') := relaySetDigest digest (C.digestOf d) cell
    (C.setDigest D d :: Cs, cell')
  | C :: Cs, k + 1, cell =>
    let (Cs', cell') := setDigestAt d Cs k cell
    (C :: Cs', cell')

def withCrypto (cpath : List (CryptPath σ τ β)) (Cs : List (RelayCryptoT σ τ β)) :
    List (CryptPath σ τ β) :=
  cpath.zipWith (fun hop C => { hop with pvt_crypto := C }) Cs

def relayEncryptCellOutbound (cpath : List (CryptPath σ τ β)) (layer_hint : ℕ)
    (cell : RelayPayload τ β) : List (CryptPath σ τ β) × RelayPayload τ β :=
  let (Cs, cell') := setDigestAt digest .out (cpath.map (·.pvt_crypto)) layer_hint cell
  let (Cs', cell'') := cryptFromFarthest .out Cs layer_hint cell'
  (withCrypto cpath Cs', cell'')

def relayEncryptCellInbound (crypto : RelayCryptoT σ τ β) (cell : RelayPayload τ β) :
    RelayCryptoT σ τ β × RelayPayload τ β :=
  let (D, cell') := relaySetDigest digest crypto.b_digest cell
  ({ crypto with b_digest := D }).cryptCell .in cell'

/-- A cell from the origin, hop after hop: who recognized it and what it read.
`none` is a cell that ran off the end of the circuit. -/
def forwardOutbound [DecidableEq τ] :
    List (RelayCryptoT σ τ β) → RelayPayload τ β →
      List (RelayCryptoT σ τ β) × Option (ℕ × RelayPayload τ β)
  | [], _ => ([], none)
  | C :: Cs, cell =>
    match relayDecryptCellOr digest C cell .out with
    | (true, C', cell') => (C' :: Cs, some (0, cell'))
    | (false, C', cell') =>
      let (Cs', r) := forwardOutbound Cs cell'
      (C' :: Cs', r.map fun r => (r.1 + 1, r.2))

/-- A cell made at hop number `k`, through the hops nearer to the origin. -/
def forwardInbound [DecidableEq τ] :
    List (RelayCryptoT σ τ β) → ℕ → RelayPayload τ β →
      List (RelayCryptoT σ τ β) × RelayPayload τ β
  | [], _, cell => ([], cell)
  | C :: Cs, 0, cell =>
    let (C', cell') := relayEncryptCellInbound digest C cell
    (C' :: Cs, cell')
  | C :: Cs, k + 1, cell =>
    let (Cs', cell') := forwardInbound Cs k cell
    let (_, C', cell'') := relayDecryptCellOr digest C cell' .in
    (C' :: Cs', cell'')

/-- The origin's view of a circuit, and the hops it goes through. -/
structure Circuit (σ τ β : Type*) where
  cpath : List (CryptPath σ τ β)
  hops : List (RelayCryptoT σ τ β)

def relayCell (rest : β) : RelayPayload τ β := { recognized := 0, integrity := 0, rest }

/-- A cell sent by the origin to hop number `k`, and where it ends. -/
def Circuit.sendOutbound [DecidableEq τ] (N : Circuit σ τ β) (k : ℕ) (rest : β) :
    Circuit σ τ β × Option (ℕ × RelayPayload τ β) :=
  let (cpath, cell) := relayEncryptCellOutbound digest N.cpath k (relayCell rest)
  let (hops, r) := forwardOutbound digest N.hops cell
  ({ cpath, hops }, r)

/-- A cell sent by hop number `k` to the origin, and the layer hint it gets. -/
def Circuit.sendInbound [DecidableEq τ] (N : Circuit σ τ β) (k : ℕ) (rest : β) :
    Circuit σ τ β × Option (ℕ × RelayPayload τ β) :=
  let (hops, cell) := forwardInbound digest N.hops k (relayCell rest)
  let (cpath, r) := relayDecryptCellOrigin digest N.cpath cell
  ({ cpath, hops }, r)

end Digests

/-! ### One hop -/

namespace RelayCryptoT

def layer (d : CellDirection) (C : RelayCryptoT σ τ β) (p : RelayPayload τ β) :
    RelayPayload τ β :=
  (C.cryptoOf d).cipher.crypt (C.cryptoOf d).pos p

def next (d : CellDirection) (C : RelayCryptoT σ τ β) : RelayCryptoT σ τ β :=
  C.setCrypto { C.cryptoOf d with pos := (C.cryptoOf d).pos + 1 } d

def key (d : CellDirection) (C : RelayCryptoT σ τ β) : σ × StreamCipher τ β :=
  ((C.digestOf d).seed, (C.cryptoOf d).cipher)

variable (C : RelayCryptoT σ τ β) (D : CryptoDigest σ τ β) (d e : CellDirection)
  (p : RelayPayload τ β)

theorem cryptCell_eq : C.cryptCell d p = (C.next d, C.layer d p) := rfl

@[simp] theorem layer_layer : C.layer d (C.layer d p) = p := (C.cryptoOf d).cipher.crypt_crypt _ p

@[simp] theorem layer_setDigest : (C.setDigest D d).layer d p = C.layer d p := by
  simp [layer]

@[simp] theorem digestOf_next : (C.next d).digestOf e = C.digestOf e := by
  cases d <;> cases e <;> rfl

theorem key_next : (C.next d).key e = C.key e := by
  cases d <;> cases e <;> rfl

theorem key_setDigest_addBytes :
    (C.setDigest ((C.digestOf d).addBytes p) d).key e = C.key e := by
  cases d <;> cases e <;> rfl

theorem setDigest_next : (C.next d).setDigest D d = (C.setDigest D d).next d := by
  cases d <;> rfl

end RelayCryptoT

section Recognition

variable [Zero τ] [DecidableEq τ] (digest : σ → List (RelayPayload τ β) → τ)
  (d : CellDirection) (C : RelayCryptoT σ τ β) (p q : RelayPayload τ β)

def signed (d : CellDirection) (C : RelayCryptoT σ τ β) (p : RelayPayload τ β) :
    RelayPayload τ β :=
  { p with integrity := digest (C.digestOf d).seed ((C.digestOf d).added ++ [p]) }

def ownCell (d : CellDirection) (C : RelayCryptoT σ τ β) (p : RelayPayload τ β) :
    RelayCryptoT σ τ β :=
  (C.setDigest ((C.digestOf d).addBytes p) d).next d

theorem takeLayer_eq (cell : RelayPayload τ β) :
    takeLayer digest d C cell
      = if (C.layer d cell).recognized = 0 then
          ((relayDigestMatches digest (C.digestOf d) (C.layer d cell)).1,
            (C.next d).setDigest
              (relayDigestMatches digest (C.digestOf d) (C.layer d cell)).2.1 d,
            (relayDigestMatches digest (C.digestOf d) (C.layer d cell)).2.2)
        else (false, C.next d, C.layer d cell) := by
  rw [← RelayCryptoT.digestOf_next C d d]
  rfl

theorem relayDigestMatches_of_ne {D : CryptoDigest σ τ β}
    (h : ∀ l, digest D.seed l ≠ p.integrity) :
    relayDigestMatches digest D p = (false, D, p) := by
  have hne : ∀ q, cryptoDigestGetDigest digest (D.addBytes q) ≠ p.integrity := fun q => h _
  simp only [relayDigestMatches]
  rw [if_pos (hne _)]

theorem relayDigestMatches_signed (hi : p.integrity = 0) :
    relayDigestMatches digest (C.digestOf d) (signed digest d C p)
      = (true, (C.digestOf d).addBytes p, p) := by
  have hp : { signed digest d C p with integrity := (0 : τ) } = p := by
    rw [signed, ← hi]
  simp only [relayDigestMatches, hp]
  rw [if_neg]
  simp [cryptoDigestGetDigest, CryptoDigest.addBytes, signed]

theorem takeLayer_signed (hr : p.recognized = 0) (hi : p.integrity = 0) :
    takeLayer digest d C (C.layer d (signed digest d C p)) = (true, ownCell d C p, p) := by
  have hz : (signed digest d C p).recognized = 0 := hr
  rw [takeLayer_eq, RelayCryptoT.layer_layer, if_pos hz,
    relayDigestMatches_signed digest d C p hi, RelayCryptoT.setDigest_next, ownCell]

theorem takeLayer_of_ne
    (h : ∀ l, digest (C.digestOf d).seed l ≠ q.integrity) :
    takeLayer digest d C (C.layer d q) = (false, C.next d, q) := by
  rw [takeLayer_eq, RelayCryptoT.layer_layer]
  by_cases hz : q.recognized = 0
  · rw [if_pos hz, relayDigestMatches_of_ne digest q h, ← RelayCryptoT.digestOf_next C d d,
      RelayCryptoT.setDigest_digestOf]
  · rw [if_neg hz]

theorem relayDigestMatches_false {D D' : CryptoDigest σ τ β} {p p' : RelayPayload τ β}
    (h : relayDigestMatches digest D p = (false, D', p')) : D' = D ∧ p' = p := by
  simp only [relayDigestMatches] at h
  split at h
  · simp only [Prod.mk.injEq, true_and] at h
    exact ⟨h.1.symm, h.2.symm⟩
  · simp at h

theorem takeLayer_unrecognized {C C' : RelayCryptoT σ τ β} {cell cell' : RelayPayload τ β}
    (h : takeLayer digest d C cell = (false, C', cell')) :
    C' = C.next d ∧ cell' = C.layer d cell := by
  rw [takeLayer_eq] at h
  by_cases hz : (C.layer d cell).recognized = 0
  · rw [if_pos hz] at h
    obtain ⟨hrv, hC, hc⟩ : _ ∧ _ ∧ _ := by simpa only [Prod.mk.injEq] using h
    obtain ⟨hD, hp⟩ := relayDigestMatches_false digest (Prod.ext hrv rfl)
    refine ⟨?_, by rw [← hc, hp]⟩
    rw [← hC, hD, ← RelayCryptoT.digestOf_next C d d, RelayCryptoT.setDigest_digestOf]
  · rw [if_neg hz, Prod.mk.injEq, Prod.mk.injEq] at h
    exact ⟨h.2.1.symm, h.2.2.symm⟩

/-! ### All the hops -/

/-- A cell for hop number `k` under the layers of all the hops up to it, and the
hops after it was made. -/
def sealFor (d : CellDirection) :
    List (RelayCryptoT σ τ β) → ℕ → RelayPayload τ β →
      List (RelayCryptoT σ τ β) × RelayPayload τ β
  | [], _, p => ([], p)
  | C :: Cs, 0, p => (ownCell d C p :: Cs, C.layer d (signed digest d C p))
  | C :: Cs, k + 1, p =>
    (C.next d :: (sealFor d Cs k p).1, C.layer d (sealFor d Cs k p).2)

/-- Hop after hop takes its layer off until one of them recognizes the cell. -/
def openBy (d : CellDirection) :
    List (RelayCryptoT σ τ β) → RelayPayload τ β →
      List (RelayCryptoT σ τ β) × Option (ℕ × RelayPayload τ β)
  | [], _ => ([], none)
  | C :: Cs, cell =>
    match takeLayer digest d C cell with
    | (true, C', cell') => (C' :: Cs, some (0, cell'))
    | (false, C', cell') =>
      (C' :: (openBy d Cs cell').1, (openBy d Cs cell').2.map fun r => (r.1 + 1, r.2))

variable {digest} {ciphers : Set (StreamCipher τ β)} {p : RelayPayload τ β}

/-- A payload with any number of layers over it. -/
inductive Layered (ciphers : Set (StreamCipher τ β)) (p : RelayPayload τ β) :
    RelayPayload τ β → Prop
  | refl : Layered ciphers p p
  | layer {c : StreamCipher τ β} {q : RelayPayload τ β} (n : ℕ) :
      c ∈ ciphers → Layered ciphers p q → Layered ciphers p (c.crypt n q)

/-- No two digests that began with different key material are ever the same in
the integrity field of a cell, also under layers of encryption. -/
def CollisionFree (digest : σ → List (RelayPayload τ β) → τ)
    (ciphers : Set (StreamCipher τ β)) : Prop :=
  ∀ p q s l s' l', p.integrity = digest s l → Layered ciphers p q →
    q.integrity = digest s' l' → s = s'

/-- The hops have ciphers of the given kind and, each direction for itself, key
material of their own. -/
structure Keyed (ciphers : Set (StreamCipher τ β)) (d : CellDirection)
    (keys : List (σ × StreamCipher τ β)) : Prop where
  nodup : (keys.map (·.1)).Nodup
  mem : ∀ k ∈ keys, k.2 ∈ ciphers

omit [Zero τ] [DecidableEq τ] in
variable (digest) in
/-- What a cell for hop number `k` carries, under its layers, is a digest that
began with that hop's key material. -/
theorem sealFor_layered {Cs : List (RelayCryptoT σ τ β)} {k : ℕ} (hk : k < Cs.length)
    (hm : ∀ C ∈ Cs, (C.key d).2 ∈ ciphers) :
    ∃ C ∈ Cs, ∃ q l, q.integrity = digest (C.key d).1 l ∧
      Layered ciphers q (sealFor digest d Cs k p).2 := by
  induction Cs generalizing k with
  | nil => simp at hk
  | cons C Cs ih =>
    have hC : (C.key d).2 ∈ ciphers := hm C (by simp)
    cases k with
    | zero => exact ⟨C, by simp, _, _, rfl, .layer _ hC .refl⟩
    | succ k =>
      obtain ⟨C', hC', q, l, hq, hl⟩ := ih (by simpa using hk) (fun C h => hm C (by simp [h]))
      exact ⟨C', by simp [hC'], q, l, hq, .layer _ hC hl⟩

omit [Zero τ] [DecidableEq τ] in
variable (digest) in
theorem sealFor_keys (e : CellDirection) (Cs : List (RelayCryptoT σ τ β)) (k : ℕ)
    (p : RelayPayload τ β) :
    (sealFor digest d Cs k p).1.map (·.key e) = Cs.map (·.key e) := by
  induction Cs generalizing k with
  | nil => rfl
  | cons C Cs ih =>
    cases k with
    | zero =>
      simp only [sealFor, List.map_cons, ownCell, RelayCryptoT.key_next,
        RelayCryptoT.key_setDigest_addBytes]
    | succ k => simp only [sealFor, List.map_cons, RelayCryptoT.key_next, ih]

/-- A cell sealed for hop number `k` is recognized there and not before, it is
read as it was, and the hops that took its layers off are where the hops that
put them on are. -/
theorem openBy_sealFor (hcf : CollisionFree digest ciphers) {Cs : List (RelayCryptoT σ τ β)}
    {k : ℕ} (hk : k < Cs.length) (hkey : Keyed ciphers d (Cs.map (·.key d)))
    (hr : p.recognized = 0) (hi : p.integrity = 0) :
    openBy digest d Cs (sealFor digest d Cs k p).2
      = ((sealFor digest d Cs k p).1, some (k, p)) := by
  induction Cs generalizing k with
  | nil => simp at hk
  | cons C Cs ih =>
    cases k with
    | zero => simp only [sealFor, openBy, takeLayer_signed digest d C p hr hi]
    | succ k =>
      have hk' : k < Cs.length := by simpa using hk
      have hnd : (C.key d).1 ∉ (Cs.map (·.key d)).map (·.1) ∧
          ((Cs.map (·.key d)).map (·.1)).Nodup := by
        simpa only [List.map_cons, List.nodup_cons] using hkey.nodup
      have hmem : ∀ C' ∈ Cs, (C'.key d).2 ∈ ciphers := fun C' h =>
        hkey.mem _ (List.mem_map_of_mem (List.mem_cons_of_mem _ h))
      -- the digest under the remaining layers began with another hop's key
      have hne : ∀ l, digest (C.digestOf d).seed l ≠ (sealFor digest d Cs k p).2.integrity := by
        intro l hl
        obtain ⟨C', hC', q, l', hq, hlay⟩ := sealFor_layered digest d hk' hmem
        have hs : (C'.key d).1 = (C.key d).1 := hcf _ _ _ _ _ l hq hlay hl.symm
        exact hnd.1 (hs ▸ List.mem_map_of_mem (List.mem_map_of_mem hC'))
      have hkey' : Keyed ciphers d (Cs.map (·.key d)) :=
        ⟨hnd.2, fun K hK => hkey.mem K (List.mem_cons_of_mem _ hK)⟩
      simp only [sealFor, openBy, takeLayer_of_ne digest d C _ hne, ih hk' hkey', Option.map_some]

omit [Zero τ] [DecidableEq τ] in
variable (digest) in
theorem sealFor_digestOf (e : CellDirection) (Cs : List (RelayCryptoT σ τ β)) {j k : ℕ}
    (hj : j ≠ k) :
    ((sealFor digest d Cs k p).1[j]?).map (·.digestOf e) = Cs[j]?.map (·.digestOf e) := by
  induction Cs generalizing j k with
  | nil => rfl
  | cons C Cs ih =>
    cases k with
    | zero =>
      obtain ⟨i, rfl⟩ : ∃ i, j = i + 1 := ⟨j - 1, by omega⟩
      simp only [sealFor, List.getElem?_cons_succ]
    | succ k =>
      cases j with
      | zero => simp [sealFor]
      | succ i =>
        simp only [sealFor, List.getElem?_cons_succ]
        exact ih (by omega)

/-! ### The functions of the source -/

omit [Zero τ] [DecidableEq τ] in
theorem setDigestAt_append (Cs Ds : List (RelayCryptoT σ τ β)) {k : ℕ} (hk : k < Cs.length) :
    cryptFromFarthest d (setDigestAt digest d (Cs ++ Ds) k p).1 k
        (setDigestAt digest d (Cs ++ Ds) k p).2
      = ((sealFor digest d Cs k p).1 ++ Ds, (sealFor digest d Cs k p).2) := by
  induction Cs generalizing k with
  | nil => simp at hk
  | cons C Cs ih =>
    cases k with
    | zero =>
      simp only [List.cons_append, setDigestAt, relaySetDigest, cryptFromFarthest,
        RelayCryptoT.cryptCell_eq, RelayCryptoT.layer_setDigest, sealFor, ownCell]
      rfl
    | succ k =>
      have ih := ih (k := k) (by simpa using hk)
      simp only [List.cons_append, setDigestAt, cryptFromFarthest, RelayCryptoT.cryptCell_eq,
        sealFor, ih]

def opened (Cs : List (RelayCryptoT σ τ β)) : List (CryptPath σ τ β) :=
  Cs.map fun C => { state := .open, pvt_crypto := C }

omit [Zero τ] [DecidableEq τ] in
theorem withCrypto_opened {Cs Cs' : List (RelayCryptoT σ τ β)} (h : Cs.length = Cs'.length)
    (rest : List (CryptPath σ τ β)) :
    withCrypto (opened Cs ++ rest) (Cs' ++ rest.map (·.pvt_crypto)) = opened Cs' ++ rest := by
  have hrest : ∀ rest : List (CryptPath σ τ β),
      rest.zipWith (fun hop C => { hop with pvt_crypto := C }) (rest.map (·.pvt_crypto))
        = rest := by
    intro rest
    induction rest with
    | nil => rfl
    | cons hop rest ih => simp only [List.map_cons, List.zipWith_cons_cons, ih]
  induction Cs generalizing Cs' with
  | nil =>
    obtain rfl : Cs' = [] := List.length_eq_zero_iff.mp h.symm
    exact hrest rest
  | cons C Cs ih =>
    cases Cs' with
    | nil => simp at h
    | cons C' Cs' =>
      have hlen : Cs.length = Cs'.length := by simpa using h
      have ih := ih hlen
      simp only [withCrypto, opened, List.map_cons, List.cons_append,
        List.zipWith_cons_cons] at ih ⊢
      rw [ih]

omit [Zero τ] [DecidableEq τ] in
theorem relayEncryptCellOutbound_eq (Cs : List (RelayCryptoT σ τ β))
    (rest : List (CryptPath σ τ β)) {k : ℕ} (hk : k < Cs.length) :
    relayEncryptCellOutbound digest (opened Cs ++ rest) k p
      = (opened (sealFor digest .out Cs k p).1 ++ rest, (sealFor digest .out Cs k p).2) := by
  have hmap : (opened Cs ++ rest).map (·.pvt_crypto) = Cs ++ rest.map (·.pvt_crypto) := by
    simp [opened, Function.comp_def]
  have hlen : Cs.length = (sealFor digest .out Cs k p).1.length := by
    simpa using congrArg List.length (sealFor_keys digest .out .out Cs k p).symm
  simp only [relayEncryptCellOutbound, hmap]
  rw [setDigestAt_append .out Cs _ hk, withCrypto_opened hlen]

theorem forwardInbound_eq (Cs : List (RelayCryptoT σ τ β)) (k : ℕ) :
    forwardInbound digest Cs k p = sealFor digest .in Cs k p := by
  induction Cs generalizing k with
  | nil => rfl
  | cons C Cs ih =>
    cases k with
    | zero => rfl
    | succ k =>
      simp only [forwardInbound, relayDecryptCellOr, RelayCryptoT.cryptCell_eq, ih, sealFor]

theorem forwardOutbound_eq (Cs : List (RelayCryptoT σ τ β)) (cell : RelayPayload τ β) :
    forwardOutbound digest Cs cell = openBy digest .out Cs cell := by
  induction Cs generalizing cell with
  | nil => rfl
  | cons C Cs ih =>
    simp only [forwardOutbound, openBy, relayDecryptCellOr, ih]

theorem relayDecryptCellOrigin_eq (Cs : List (RelayCryptoT σ τ β))
    (rest : List (CryptPath σ τ β)) {cell : RelayPayload τ β}
    (h : (openBy digest .in Cs cell).2.isSome) :
    relayDecryptCellOrigin digest (opened Cs ++ rest) cell
      = (opened (openBy digest .in Cs cell).1 ++ rest, (openBy digest .in Cs cell).2) := by
  induction Cs generalizing cell with
  | nil => simp [openBy] at h
  | cons C Cs ih =>
    simp only [opened, List.map_cons, List.cons_append, relayDecryptCellOrigin, if_true]
    rcases hl : takeLayer digest .in C cell with ⟨_ | _, C', cell'⟩
    · have h' : (openBy digest .in Cs cell').2.isSome := by
        simpa [openBy, hl] using h
      have ih := ih h'
      simp only [opened] at ih
      simp only [openBy, hl, ih, List.map_cons, List.cons_append]
    · simp only [openBy, hl, List.map_cons, List.cons_append]

/-! ### Runs -/

/-- The two ends of every hop have the same ciphers, places in the keystreams and
digests; after these hops the origin may have others that are not open yet. -/
def Circuit.Agrees (N : Circuit σ τ β) : Prop :=
  ∃ rest, N.cpath = opened N.hops ++ rest

def Circuit.Keyed (ciphers : Set (StreamCipher τ β)) (N : Circuit σ τ β) : Prop :=
  ∀ d, RelayCrypto.Keyed ciphers d (N.hops.map (·.key d))

variable (digest) in
def Circuit.send (N : Circuit σ τ β) (d : CellDirection) (k : ℕ) (rest : β) :
    Circuit σ τ β × Option (ℕ × RelayPayload τ β) :=
  match d with
  | .out => N.sendOutbound digest k rest
  | .in => N.sendInbound digest k rest

theorem Circuit.send_eq (hcf : CollisionFree digest ciphers) {N : Circuit σ τ β}
    (hkey : N.Keyed ciphers) {unopened : List (CryptPath σ τ β)}
    (hN : N.cpath = opened N.hops ++ unopened) {k : ℕ} (hk : k < N.hops.length) (rest : β) :
    N.send digest d k rest
      = ({ cpath := opened (sealFor digest d N.hops k (relayCell rest)).1 ++ unopened
           hops := (sealFor digest d N.hops k (relayCell rest)).1 },
         some (k, relayCell rest)) := by
  have hopen := openBy_sealFor d hcf hk (hkey d) (p := relayCell rest) rfl rfl
  cases d with
  | out =>
    simp only [send, sendOutbound, hN, relayEncryptCellOutbound_eq _ _ hk, forwardOutbound_eq,
      hopen]
  | «in» =>
    have hsome : (openBy digest .in N.hops
        (sealFor digest .in N.hops k (relayCell rest)).2).2.isSome := by
      rw [hopen]
      rfl
    simp only [send, sendInbound, hN, forwardInbound_eq, relayDecryptCellOrigin_eq _ _ hsome,
      hopen]

theorem Circuit.agrees_send (hcf : CollisionFree digest ciphers) {N : Circuit σ τ β}
    (hkey : N.Keyed ciphers) (ha : N.Agrees) {k : ℕ} (hk : k < N.hops.length) (rest : β) :
    (N.send digest d k rest).1.Agrees := by
  obtain ⟨unopened, hN⟩ := ha
  rw [send_eq d hcf hkey hN hk]
  exact ⟨unopened, rfl⟩

theorem Circuit.keyed_send (hcf : CollisionFree digest ciphers) {N : Circuit σ τ β}
    (hkey : N.Keyed ciphers) (ha : N.Agrees) {k : ℕ} (hk : k < N.hops.length) (rest : β) :
    (N.send digest d k rest).1.Keyed ciphers := by
  obtain ⟨unopened, hN⟩ := ha
  rw [send_eq d hcf hkey hN hk]
  intro e
  simpa only [sealFor_keys] using hkey e

variable (digest) in
/-- Cells of either direction, for or from any hop, one after the other. -/
def circuitSystem (N₀ : Circuit σ τ β) :
    Transition.System (Circuit σ τ β) (CellDirection × ℕ × β) where
  init N := N = N₀
  step N a N' := a.2.1 < N.hops.length ∧ N' = (N.send digest a.1 a.2.1 a.2.2).1

open Transition in
/-- After any sequence of cells both ends agree, and the next cell, for or from any
hop, is recognized at its end with what was sent and leaves the digests of the
other hops alone.  Whatever a hop does not recognize, it only takes its layer
off. -/
theorem cells_recognized (hcf : CollisionFree digest ciphers) {N₀ N : Circuit σ τ β}
    (ha : N₀.Agrees) (hkey : N₀.Keyed ciphers)
    (hr : Reached (circuitSystem digest N₀) (fun _ _ => True) N) :
    N.Agrees ∧
    (∀ k < N.hops.length, ∀ rest,
      (N.sendOutbound digest k rest).2 = some (k, relayCell rest) ∧
      (N.sendOutbound digest k rest).1.Agrees ∧
      (N.sendInbound digest k rest).2 = some (k, relayCell rest) ∧
      (N.sendInbound digest k rest).1.Agrees ∧
      ∀ j, j ≠ k → ∀ e,
        ((N.sendOutbound digest k rest).1.hops[j]?).map (·.digestOf e)
          = N.hops[j]?.map (·.digestOf e) ∧
        ((N.sendInbound digest k rest).1.hops[j]?).map (·.digestOf e)
          = N.hops[j]?.map (·.digestOf e)) ∧
    ∀ (d : CellDirection) (C C' : RelayCryptoT σ τ β) (cell cell' : RelayPayload τ β),
      takeLayer digest d C cell = (false, C', cell') →
        (∀ e, C'.digestOf e = C.digestOf e) ∧ cell' = C.layer d cell := by
  have hinv : N.Agrees ∧ N.Keyed ciphers := by
    refine hr.invariant (P := fun N => N.Agrees ∧ N.Keyed ciphers) ⟨?_, ?_⟩
    · rintro _ rfl
      exact ⟨ha, hkey⟩
    · rintro N ⟨d, k, rest⟩ N' ⟨ha, hkey⟩ - ⟨hk, rfl⟩
      exact ⟨Circuit.agrees_send d hcf hkey ha hk rest, Circuit.keyed_send d hcf hkey ha hk rest⟩
  obtain ⟨ha, hkey⟩ := hinv
  refine ⟨ha, ?_, ?_⟩
  · intro k hk rest
    obtain ⟨unopened, hN⟩ := ha
    have hout := Circuit.send_eq .out hcf hkey hN hk rest
    have hin := Circuit.send_eq .in hcf hkey hN hk rest
    simp only [Circuit.send] at hout hin
    rw [hout, hin]
    refine ⟨rfl, ⟨unopened, rfl⟩, rfl, ⟨unopened, rfl⟩, ?_⟩
    intro j hj e
    exact ⟨sealFor_digestOf digest .out e _ hj, sealFor_digestOf digest .in e _ hj⟩
  · intro d C C' cell cell' h
    obtain ⟨rfl, rfl⟩ := takeLayer_unrecognized digest d h
    exact ⟨fun e => RelayCryptoT.digestOf_next C d e, rfl⟩

end Recognition

/-! ### Two hops -/

def xorCipher (key : ℕ) : StreamCipher (ℕ × ℕ) ℕ where
  crypt n p :=
    { recognized := p.recognized ^^^ (key + n)
      integrity := (p.integrity.1, p.integrity.2 ^^^ (key + n))
      rest := p.rest ^^^ (key + n) }
  crypt_crypt n p := by simp only [Nat.xor_assoc, Nat.xor_self, Nat.xor_zero]

def sumDigest (seed : ℕ) (l : List (RelayPayload (ℕ × ℕ) ℕ)) : ℕ × ℕ :=
  (seed, l.foldr (fun p n => p.rest + n) 0)

def xorCiphers : Set (StreamCipher (ℕ × ℕ) ℕ) := {c | ∃ key, xorCipher key = c}

theorem sumDigest_collisionFree : CollisionFree sumDigest xorCiphers := by
  intro p q s l s' l' hp hlay hq
  have hfst : q.integrity.1 = p.integrity.1 := by
    clear hq
    induction hlay with
    | refl => rfl
    | layer n hc _ ih =>
      obtain ⟨key, rfl⟩ := hc
      exact ih
  simpa [hp, hq, sumDigest, eq_comm] using hfst

def numberedHop (n : ℕ) : RelayCryptoT ℕ (ℕ × ℕ) ℕ where
  f_crypto := { cipher := xorCipher (2 * n), pos := 0 }
  b_crypto := { cipher := xorCipher (2 * n + 1), pos := 0 }
  f_digest := { seed := 2 * n, added := [] }
  b_digest := { seed := 2 * n + 1, added := [] }

def twoHops : Circuit ℕ (ℕ × ℕ) ℕ where
  cpath := opened [numberedHop 1, numberedHop 2]
  hops := [numberedHop 1, numberedHop 2]

theorem numberedHop_mem (d : CellDirection) (n : ℕ) :
    ((numberedHop n).key d).2 ∈ xorCiphers := by
  cases d
  · exact ⟨2 * n, rfl⟩
  · exact ⟨2 * n + 1, rfl⟩

theorem twoHops_keyed : twoHops.Keyed xorCiphers := by
  intro d
  refine ⟨by cases d <;> decide, ?_⟩
  intro K hK
  obtain ⟨C, hC, rfl⟩ := List.mem_map.mp hK
  obtain rfl | rfl : C = numberedHop 1 ∨ C = numberedHop 2 := by simpa [twoHops] using hC
  · exact numberedHop_mem d 1
  · exact numberedHop_mem d 2

theorem twoHops_recognized :
    (twoHops.sendOutbound sumDigest 1 7).2 = some (1, relayCell 7) ∧
    (twoHops.sendInbound sumDigest 1 7).2 = some (1, relayCell 7) := by
  have h := (cells_recognized sumDigest_collisionFree ⟨[], (List.append_nil _).symm⟩ twoHops_keyed
    (.init rfl)).2.1 1 (by decide) 7
  exact ⟨h.1, h.2.2.1⟩

end RelayCrypto
