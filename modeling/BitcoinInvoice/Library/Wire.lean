/-
# The wire format of protocol buffers

A message on the wire is a list of records, each a field number with a payload: a number
in base 128 (`varint`), some bytes with their length before them, or four or eight bytes.
Reading takes one record after the other and stops where the bytes do (`decode`); groups,
which nobody writes any more, are not read.

What is written is read back, whatever the payloads are (`decode_encode`).  A reader goes
through the records and knows some of their numbers (`fold`): of several records with one
number the last one counts (`Reads.fold`), and a number it does not know is passed over.
-/

import Mathlib.Data.List.Basic
import Mathlib.Tactic.Ring

namespace Wire

/-! ### Numbers in base 128 -/

/-- `n` in base 128 with at most `k` digits, the lowest first.  The high bit of a byte says
that there are more. -/
def varint : ℕ → ℕ → List UInt8
  | 0, _ => []
  | k + 1, n =>
      if n < 128 then [UInt8.ofNat n] else UInt8.ofNat (n % 128 + 128) :: varint k (n / 128)

/-- Read a number of at most `k` digits off the front. -/
def readVarint : ℕ → List UInt8 → Option (ℕ × List UInt8)
  | 0, _ | _ + 1, [] => none
  | k + 1, b :: bs =>
      if b.toNat < 128 then some (b.toNat, bs)
      else (readVarint k bs).map fun p => (b.toNat - 128 + 128 * p.1, p.2)

/-- A number below 256 is a byte, and is read back from it. -/
theorem toNat_ofNat {n : ℕ} (h : n < 256) : (UInt8.ofNat n).toNat = n := by
  rw [UInt8.toNat_ofNat', Nat.mod_eq_of_lt h]

/-- **A number is read back** from its varint, with what follows it left over. The induction is on
the bytes allowed: the last byte ends the number, any other gives seven bits and goes on with the
quotient, which one byte less can still hold. -/
theorem readVarint_varint {k n : ℕ} (h : n < 128 ^ (k + 1)) (rest : List UInt8) :
    readVarint (k + 1) (varint (k + 1) n ++ rest) = some (n, rest) := by
  induction k generalizing n with
  | zero =>
      have hn : n < 128 := by simpa using h
      have hb : (UInt8.ofNat n).toNat = n := toNat_ofNat (by omega)
      simp [varint, readVarint, hn, hb]
  | succ k ih =>
      by_cases hn : n < 128
      · have hb : (UInt8.ofNat n).toNat = n := toNat_ofNat (by omega)
        simp [varint, readVarint, hn, hb]
      · have hb : (UInt8.ofNat (n % 128 + 128)).toNat = n % 128 + 128 :=
          toNat_ofNat (by omega)
        have hdiv : n / 128 < 128 ^ (k + 1) := by
          rw [Nat.div_lt_iff_lt_mul (by norm_num), ← pow_succ]
          exact h
        rw [varint, if_neg hn, List.cons_append, readVarint, hb, if_neg (by omega), ih hdiv]
        simp only [Option.map_some, Option.some.injEq, Prod.mk.injEq, and_true]
        omega

/-- A varint has at least one byte, whatever it stands for: the number zero is a byte as well. -/
theorem varint_ne_nil (k n : ℕ) : varint (k + 1) n ≠ [] := by
  unfold varint
  split_ifs <;> simp

/-! ### Records -/

/-- The payloads of a fixed length. -/
inductive Width where
  | four
  | eight
  deriving DecidableEq

def Width.bytes : Width → ℕ
  | four => 4
  | eight => 8

inductive Payload where
  | varint (value : UInt64)
  | bytes (value : List UInt8)
  | fixed (width : Width) (value : { bs : List UInt8 // bs.length = width.bytes })
  deriving DecidableEq

/-- A record, with a field number that fits its tag. -/
structure Record where
  number : ℕ
  payload : Payload
  pos : 0 < number
  lt : number < 2 ^ 29
  deriving DecidableEq

/-- The low digits of the tag. -/
def Payload.wireType : Payload → ℕ
  | varint _ => 0
  | fixed .eight _ => 1
  | bytes _ => 2
  | fixed .four _ => 5

def Payload.encode : Payload → List UInt8
  | varint value => Wire.varint 10 value.toNat
  | bytes value => Wire.varint 10 value.length ++ value
  | fixed _ value => value

def Record.encode (r : Record) : List UInt8 :=
  varint 10 (8 * r.number + r.payload.wireType) ++ r.payload.encode

/-- The records, one after the other. -/
def encode (rs : List Record) : List UInt8 := rs.flatMap Record.encode

def readFixed (w : Width) (bs : List UInt8) : Option (Payload × List UInt8) :=
  if h : (bs.take w.bytes).length = w.bytes then
    some (.fixed w ⟨bs.take w.bytes, h⟩, bs.drop w.bytes)
  else none

/-- Read a payload of a wire type. -/
def readPayload (wireType : ℕ) (bs : List UInt8) : Option (Payload × List UInt8) :=
  match wireType with
  | 0 =>
      match readVarint 10 bs with
      | some (n, rest) => if n < 2 ^ 64 then some (.varint (UInt64.ofNat n), rest) else none
      | none => none
  | 1 => readFixed .eight bs
  | 2 =>
      match readVarint 10 bs with
      | some (n, rest) => if n ≤ rest.length then some (.bytes (rest.take n), rest.drop n) else none
      | none => none
  | 5 => readFixed .four bs
  | _ => none

def readRecord (bs : List UInt8) : Option (Record × List UInt8) :=
  match readVarint 10 bs with
  | some (tag, rest) =>
      if h : 0 < tag / 8 ∧ tag / 8 < 2 ^ 29 then
        (readPayload (tag % 8) rest).map fun p => (⟨tag / 8, p.1, h.1, h.2⟩, p.2)
      else none
  | none => none

/-- Read records to the end, of which there are at most `k`. -/
def decodeFrom : ℕ → List UInt8 → Option (List Record)
  | _, [] => some []
  | 0, _ :: _ => none
  | k + 1, b :: bs =>
      match readRecord (b :: bs) with
      | some (r, rest) => (decodeFrom k rest).map (r :: ·)
      | none => none

/-- The records of a message: no more than there are bytes. -/
def decode (bs : List UInt8) : Option (List Record) := decodeFrom bs.length bs

/-- The length of the payload can be written down. -/
def Payload.Fits : Payload → Prop
  | bytes value => value.length < 2 ^ 64
  | varint _ | fixed _ _ => True

/-- A value of fixed width is read back, with what follows it left over: its length is part of its
type, so taking that many bytes takes all of it and nothing else. -/
theorem readFixed_append (w : Width) (value : { bs : List UInt8 // bs.length = w.bytes })
    (rest : List UInt8) : readFixed w (value ++ rest) = some (.fixed w value, rest) := by
  obtain ⟨bs, hbs⟩ := value
  have htake : (bs ++ rest).take w.bytes = bs := List.take_left' hbs
  have hdrop : (bs ++ rest).drop w.bytes = rest := List.drop_left' hbs
  simp [readFixed, htake, hdrop, hbs]

/-- **A payload is read back** by its own wire type, with what follows it left over. A varint and
a length both stay below ten bytes' worth of digits, and the bytes behind a length are exactly as
many as it says. -/
theorem readPayload_encode {p : Payload} (h : p.Fits) (rest : List UInt8) :
    readPayload p.wireType (p.encode ++ rest) = some (p, rest) := by
  cases p with
  | varint value =>
      have hlt : value.toNat < 2 ^ 64 := value.toNat_lt
      show (match readVarint 10 (varint 10 value.toNat ++ rest) with
        | some (n, rest) =>
            if n < 2 ^ 64 then some (Payload.varint (UInt64.ofNat n), rest) else none
        | none => none) = _
      rw [readVarint_varint (by omega)]
      simpa using hlt
  | bytes value =>
      have hlt : value.length < 2 ^ 64 := h
      show (match readVarint 10 (varint 10 value.length ++ value ++ rest) with
        | some (n, rest) =>
            if n ≤ rest.length then some (Payload.bytes (rest.take n), rest.drop n) else none
        | none => none) = _
      rw [List.append_assoc, readVarint_varint (by omega)]
      simp
  | fixed width value =>
      cases width with
      | four => exact readFixed_append .four value rest
      | eight => exact readFixed_append .eight value rest

/-- The wire types are numbers of three bits, so a tag can be split into the number of the field
and the wire type of the payload again. -/
theorem Payload.wireType_lt (p : Payload) : p.wireType < 8 := by
  rcases p with _ | _ | ⟨_ | _, _⟩ <;> simp [wireType]

/-- **A record is read back,** with what follows it left over. Its tag is the number and the wire
type in one varint: dividing by eight gives the number, the remainder tells how to read the
payload. -/
theorem readRecord_encode {r : Record} (h : r.payload.Fits) (rest : List UInt8) :
    readRecord (r.encode ++ rest) = some (r, rest) := by
  obtain ⟨number, payload, hpos, hlt⟩ := r
  have hw := payload.wireType_lt
  have hdiv : (8 * number + payload.wireType) / 8 = number := by omega
  have hmod : (8 * number + payload.wireType) % 8 = payload.wireType := by omega
  have htag : 8 * number + payload.wireType < 128 ^ 10 := by omega
  rw [Record.encode, List.append_assoc, readRecord, readVarint_varint htag]
  simp only [hdiv, hmod]
  rw [dif_pos ⟨hpos, hlt⟩, readPayload_encode h]
  rfl

/-- A record has at least one byte, that of its tag, so reading one makes progress. -/
theorem Record.encode_ne_nil (r : Record) : r.encode ≠ [] := by
  simp [Record.encode, varint_ne_nil]

/-- **What is written is read back,** record by record, with any fuel that is enough for their
number. Every record has a byte, so the message is not over before the last one is read. -/
theorem decodeFrom_encode {rs : List Record} (h : ∀ r ∈ rs, r.payload.Fits) {k : ℕ}
    (hk : rs.length ≤ k) : decodeFrom k (encode rs) = some rs := by
  induction rs generalizing k with
  | nil => cases k <;> rfl
  | cons r rs ih =>
      obtain ⟨k, rfl⟩ : ∃ k', k = k' + 1 := ⟨k - 1, by simp at hk; omega⟩
      have hread := readRecord_encode (h r (List.mem_cons_self ..)) (encode rs)
      have hlen : rs.length ≤ k := by simpa using hk
      have hrest := ih (fun r' hr' => h r' (List.mem_cons_of_mem _ hr')) hlen
      have hcons : encode (r :: rs) = r.encode ++ encode rs := rfl
      obtain ⟨b, bs, hbs⟩ := List.exists_cons_of_ne_nil (l := encode (r :: rs)) (by
        rw [hcons]
        simp [r.encode_ne_nil])
      rw [hbs, decodeFrom, ← hbs, hcons, hread]
      simp [hrest]

/-- There are no more records than bytes, so the number of bytes is fuel enough to read
them all. -/
theorem length_le_length_encode (rs : List Record) : rs.length ≤ (encode rs).length := by
  induction rs with
  | nil => exact le_rfl
  | cons r rs ih =>
      have hpos := List.length_pos_of_ne_nil r.encode_ne_nil
      have hlen : (encode (r :: rs)).length = r.encode.length + (encode rs).length :=
        List.length_append
      rw [List.length_cons, hlen]
      omega

/-- **A message is read back** record by record, in the order they were written in: the numbers
need not be known, and may come several times. -/
theorem decode_encode {rs : List Record} (h : ∀ r ∈ rs, r.payload.Fits) :
    decode (encode rs) = some rs :=
  decodeFrom_encode h (length_le_length_encode rs)

/-! ### Messages -/

/-- A field that is left out when it is `absent`, which is how a default is written. -/
def field (number : ℕ) (h : 0 < number ∧ number < 2 ^ 29) (absent : Bool) (p : Payload) :
    List Record :=
  if absent then [] else [⟨number, p, h.1, h.2⟩]

/-- The payload of a number that counts: the last one. -/
def last (number : ℕ) : List Record → Option Payload
  | [] => none
  | r :: rs => (last number rs).or (if r.number = number then some r.payload else none)

/-- A field that is written is one record at most, with its number and its payload. -/
theorem mem_field {number : ℕ} {h : 0 < number ∧ number < 2 ^ 29} {absent : Bool} {p : Payload}
    {r : Record} (hr : r ∈ field number h absent p) : r.number = number ∧ r.payload = p := by
  unfold field at hr
  split_ifs at hr
  · cases hr
  · obtain rfl := List.mem_singleton.1 hr
    exact ⟨rfl, rfl⟩

/-- A field fits if its payload does: where it is left out there is nothing that could be too
long. -/
theorem fits_field {number : ℕ} {h : 0 < number ∧ number < 2 ^ 29} {absent : Bool} {p : Payload}
    (hp : p.Fits) : ∀ r ∈ field number h absent p, r.payload.Fits :=
  fun _ hr => (mem_field hr).2 ▸ hp

/-- What a reader does with the records of one number, where their payload is right. -/
structure Case (M : Type*) where
  number : ℕ
  read : Payload → Option (M → M)

variable {M α β : Type*} {cases : List (Case M)} {m m' : M} {rs : List Record}

/-- A payload that is read as a value, which is then set. -/
def Case.of (number : ℕ) (read : Payload → Option β) (set : β → M → M) : Case M where
  number := number
  read p := (read p).map set

/-- Some readers pass over a payload of another wire type. -/
def Case.lenient (c : Case M) (wireType : ℕ) : Case M where
  number := c.number
  read p := if p.wireType = wireType then c.read p else some id

/-- The records leave the field alone. -/
def Case.Keeps (c : Case M) (get : M → α) : Prop :=
  ∀ p set m, c.read p = some set → get (set m) = get m

/-- The number of a case is the one it was made for. -/
@[simp]
theorem Case.number_of (number : ℕ) (read : Payload → Option β) (set : β → M → M) :
    (Case.of number read set).number = number := rfl

/-- A case reads a payload by its reader, and then sets the field to what it has read. -/
theorem Case.read_of {number : ℕ} {read : Payload → Option β} {set : β → M → M} {p : Payload}
    {v : β} (h : read p = some v) : (Case.of number read set).read p = some (set v) := by
  show (read p).map set = _
  rw [h, Option.map_some]

/-- A case that is lenient towards a wire type reads a payload of this wire type as the case
does. -/
theorem Case.read_lenient {c : Case M} {p : Payload} :
    (c.lenient p.wireType).read p = c.read p :=
  if_pos rfl

/-- A case keeps a field that its setter does not touch, whichever value its reader has made of
the payload. -/
theorem Case.keeps_of {number : ℕ} {read : Payload → Option β} {set : β → M → M} {get : M → α}
    (h : ∀ v m, get (set v m) = get m) : (Case.of number read set).Keeps get := by
  intro p set' m hs
  obtain ⟨v, -, rfl⟩ := Option.map_eq_some_iff.1 hs
  exact h v m

/-- One record: a number that is not known is passed over. -/
def step (cases : List (Case M)) (m : M) (r : Record) : Option M :=
  match cases.find? fun c => c.number = r.number with
  | some c => (c.read r.payload).map fun set => set m
  | none => some m

/-- The loop of a reader. -/
def fold (cases : List (Case M)) : M → List Record → Option M
  | m, [] => some m
  | m, r :: rs => (step cases m r).bind fun m => fold cases m rs

/-- **A default that is left out** is read as if it had been written: setting the field to its
default changes nothing, so the loop is where it would be behind the record. -/
theorem fold_field {number : ℕ} {h : 0 < number ∧ number < 2 ^ 29} {absent : Bool} {p : Payload}
    {c : Case M} {set : M → M}
    (hfind : (cases.find? fun c => c.number = number) = some c) (hread : c.read p = some set)
    (hdefault : absent = true → set m = m) :
    fold cases m (field number h absent p ++ rs) = fold cases (set m) rs := by
  cases absent with
  | true => rw [hdefault rfl]; rfl
  | false =>
      have hstep : step cases m ⟨number, p, h.1, h.2⟩ = some (set m) := by
        simp [step, hfind, hread]
      show (step cases m ⟨number, p, h.1, h.2⟩).bind (fun m => fold cases m rs) = _
      rw [hstep]
      rfl

/-- The field `get` of a message is the one that `read` reads off the records of a
number. -/
structure Reads (cases : List (Case M)) (number : ℕ) (read : Payload → Option α) (get : M → α) :
    Prop where
  known : ∃ c ∈ cases, c.number = number
  own : ∀ c ∈ cases, c.number = number → ∀ p set m, c.read p = some set →
    read p = some (get (set m))
  other : ∀ c ∈ cases, c.number ≠ number → c.Keeps get

/-- Cases of other numbers, which leave the field alone. -/
def Others (cases : List (Case M)) (number : ℕ) (get : M → α) : Prop :=
  ∀ c ∈ cases, c.number ≠ number ∧ c.Keeps get

/-- No cases are no other cases, which is where the list of the others ends. -/
theorem Others.nil {number : ℕ} {get : M → α} : Others ([] : List (Case M)) number get :=
  fun _ hc => absurd hc List.not_mem_nil

/-- A case of another number that keeps the field is one of the others. So a reader's cases are
gone through one by one, and of each only the number and the setter matter. -/
theorem Others.cons {number number' : ℕ} {read : Payload → Option β} {set : β → M → M} {get : M → α}
    (hne : number' ≠ number) (h : ∀ v m, get (set v m) = get m) (hrest : Others cases number get) :
    Others (.of number' read set :: cases) number get :=
  List.forall_mem_cons.2 ⟨⟨hne, Case.keeps_of h⟩, hrest⟩

/-- The first case sets the field to what its reader makes of the payload; those behind it are of
other numbers and leave it alone. -/
theorem Reads.head {number : ℕ} {read : Payload → Option α} {set : α → M → M} {get : M → α}
    (hget : ∀ v m, get (set v m) = v) (hrest : Others cases number get) :
    Reads (.of number read set :: cases) number read get where
  known := ⟨_, List.mem_cons_self, rfl⟩
  own c hc hn p set' m hs := by
    rcases List.mem_cons.1 hc with rfl | hc
    · obtain ⟨v, hv, rfl⟩ := Option.map_eq_some_iff.1 hs
      rw [hv, hget]
    · exact absurd hn (hrest c hc).1
  other c hc hn := by
    rcases List.mem_cons.1 hc with rfl | hc
    · exact absurd rfl hn
    · exact (hrest c hc).2

/-- A case before leaves the field alone and has another number, so which case reads the field is
decided behind it. -/
theorem Reads.tail {number number' : ℕ} {read : Payload → Option α} {read' : Payload → Option β}
    {set : β → M → M} {get : M → α} (hne : number' ≠ number) (hk : ∀ v m, get (set v m) = get m)
    (h : Reads cases number read get) : Reads (.of number' read' set :: cases) number read get where
  known := by
    obtain ⟨c', hc', hn⟩ := h.known
    exact ⟨c', List.mem_cons_of_mem _ hc', hn⟩
  own c' hc' hn := by
    rcases List.mem_cons.1 hc' with rfl | hc'
    · exact absurd hn hne
    · exact h.own c' hc' hn
  other c' hc' hn := by
    rcases List.mem_cons.1 hc' with rfl | hc'
    · exact Case.keeps_of hk
    · exact h.other c' hc' hn

/-- One record sets the field to what is read of it, if it has the number of the field, and keeps
the field otherwise. -/
theorem Reads.step {number : ℕ} {read : Payload → Option α} {get : M → α}
    (h : Reads cases number read get) {r : Record} (hs : step cases m r = some m') :
    if r.number = number then read r.payload = some (get m') else get m' = get m := by
  unfold Wire.step at hs
  cases hf : cases.find? fun c => c.number = r.number with
  | none =>
      rw [hf] at hs
      obtain rfl := Option.some.inj hs
      obtain ⟨c, hc, hn⟩ := h.known
      have hne : r.number ≠ number := by
        rintro rfl
        exact absurd (List.find?_eq_none.1 hf c hc) (by simp [hn])
      rw [if_neg hne]
  | some c =>
      rw [hf] at hs
      obtain ⟨set, hset, rfl⟩ := Option.map_eq_some_iff.1 hs
      have hmem := List.mem_of_find?_eq_some hf
      have hnumber : c.number = r.number := by simpa using List.find?_some hf
      split_ifs with hn
      · exact h.own c hmem (hnumber.trans hn) r.payload set m hset
      · exact h.other c hmem (hnumber ▸ hn) r.payload set m hset

/-- The value of a number: that of its last record, or the default. -/
def valueOf (number : ℕ) (read : Payload → Option α) (default : α) (rs : List Record) : Option α :=
  match last number rs with
  | some p => read p
  | none => some default

/-- **The last record counts,** and without one the field is as it was. The induction is
on the records: a later one of the same number sets the field again, and those of other
numbers keep it. -/
theorem Reads.fold {number : ℕ} {read : Payload → Option α} {get : M → α}
    (h : Reads cases number read get) (hf : fold cases m rs = some m') :
    valueOf number read (get m) rs = some (get m') := by
  unfold valueOf
  induction rs generalizing m with
  | nil =>
      obtain rfl := Option.some.inj hf
      rfl
  | cons r rs ih =>
      obtain ⟨n, hn, hrest⟩ := Option.bind_eq_some_iff.1 hf
      have hstep := h.step hn
      have hlast := ih hrest
      cases hl : last number rs with
      | some p =>
          rw [hl] at hlast
          rw [last, hl]
          exact hlast
      | none =>
          rw [hl] at hlast
          rw [last, hl, Option.none_or]
          split_ifs at hstep ⊢ with hnumber
          · exact hstep.trans hlast
          · exact (congrArg some hstep.symm).trans hlast

/-- A case accepts a payload exactly where its reader does, whatever the message: setting a field
cannot fail. -/
@[simp]
theorem Case.isSome_of {number : ℕ} {read : Payload → Option β} {set : β → M → M} (p : Payload) :
    ((Case.of number read set).read p).isSome = (read p).isSome :=
  Option.isSome_map

/-- Where no two cases have one number, the case that is found for a number is the one that has
it. -/
theorem find?_eq_some_iff (hcases : (cases.map (·.number)).Nodup) {number : ℕ} {c : Case M} :
    (cases.find? fun c => c.number = number) = some c ↔ c ∈ cases ∧ c.number = number := by
  constructor
  · intro h
    exact ⟨List.mem_of_find?_eq_some h, by simpa using List.find?_some h⟩
  · rintro ⟨hc, rfl⟩
    induction cases with
    | nil => cases hc
    | cons c' cases ih =>
        obtain ⟨hnew, hcases⟩ := List.nodup_cons.1 hcases
        rcases List.mem_cons.1 hc with rfl | hc
        · simp
        · have hne : c'.number ≠ c.number := fun he => hnew (List.mem_map.2 ⟨c, hc, he.symm⟩)
          rw [List.find?_cons_of_neg (by simpa using hne)]
          exact ih hcases hc

/-- **A reader gets to the end** exactly where the payloads of the numbers it knows are
right. -/
theorem fold_isSome_iff (hcases : (cases.map (·.number)).Nodup) :
    (fold cases m rs).isSome = true ↔
      ∀ c ∈ cases, ∀ r ∈ rs, r.number = c.number → (c.read r.payload).isSome = true := by
  induction rs generalizing m with
  | nil => simp [fold]
  | cons r rs ih =>
      have hsplit : (∀ c ∈ cases, ∀ r' ∈ r :: rs, r'.number = c.number →
          (c.read r'.payload).isSome = true) ↔
          (∀ c ∈ cases, c.number = r.number → (c.read r.payload).isSome = true) ∧
            ∀ c ∈ cases, ∀ r' ∈ rs, r'.number = c.number → (c.read r'.payload).isSome = true := by
        constructor
        · intro h
          exact ⟨fun c hc hn => h c hc r List.mem_cons_self hn.symm,
            fun c hc r' hr' => h c hc r' (List.mem_cons_of_mem _ hr')⟩
        · rintro ⟨hfirst, hrest⟩ c hc r' hr' hn
          rcases List.mem_cons.1 hr' with rfl | hr'
          · exact hfirst c hc hn.symm
          · exact hrest c hc r' hr' hn
      rw [hsplit, fold]
      cases hf : cases.find? fun c => c.number = r.number with
      | none =>
          have hnone : ∀ c ∈ cases, c.number ≠ r.number := by simpa using hf
          have hvac : ∀ c ∈ cases, c.number = r.number → (c.read r.payload).isSome = true :=
            fun c hc he => absurd he (hnone c hc)
          simp only [step, hf, Option.bind_some, ih, and_iff_right hvac]
      | some c =>
          obtain ⟨hc, hn⟩ := (find?_eq_some_iff hcases).1 hf
          have hown : (∀ c ∈ cases, c.number = r.number → (c.read r.payload).isSome = true) ↔
              (c.read r.payload).isSome = true := by
            refine ⟨fun h => h c hc hn, fun h c' hc' hn' => ?_⟩
            have hf' := (find?_eq_some_iff hcases).2 ⟨hc', hn'⟩
            obtain rfl := Option.some.inj (hf.symm.trans hf')
            exact h
          rw [hown]
          cases hc : c.read r.payload with
          | none => simp [step, hf, hc]
          | some set => simp [step, hf, hc, ih]

end Wire
