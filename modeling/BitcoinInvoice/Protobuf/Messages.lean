/-
# The messages on the wire

`protobuf/invoice.proto` in its two translations: `client/src/protobuf/invoice_pb.js` and
`invoice_grpc_web_pb.js` for the browser, and the structs and their tags in
`server/server/protobuf/invoice.pb.go` for the server.  The runtimes they go through are
libraries; what is assumed of them is that they write and read the wire format (`Runtime`).

Numbers that are zero and texts that are empty are left out, and come back as defaults.
The browser has no 64-bit integers: a number of satoshis arrives there rounded to a
`float64`, which is the number itself up to `2 ^ 53`.  All else arrives as it was sent
(`request_received`, `response_received`).  And from records nobody wrote, a message takes
the last one of each number it knows (`deserialized_last`).  What number the browser's
library makes of a varint that no server writes is left open.
-/

import BitcoinInvoice.Client.Document
import BitcoinInvoice.Library.Wire

namespace BitcoinInvoice

open Wire (Payload Record Case field last)
open Float64

/-- The bytes of a text. -/
def utf8 (s : String) : List UInt8 := s.toByteArray.data.toList

/-- A library of protocol buffers: it writes and reads the wire format, and UTF-8.  Only
what has a reading in the wire format is asked of it. -/
structure Runtime where
  write : List Record → List UInt8
  read : List UInt8 → Option (List Record)
  text : List UInt8 → Option String
  write_eq : ∀ rs, write rs = Wire.encode rs
  read_eq : ∀ bs rs, Wire.decode bs = some rs → read bs = some rs
  text_utf8 : ∀ s, text (utf8 s) = some s

/-- The negative numbers of an `int32` have 64 bits on the wire. -/
def int32Payload (value : Int32) : Payload := .varint value.toInt64.toUInt64

def int64Payload (value : Int64) : Payload := .varint value.toUInt64

def stringPayload (s : String) : Payload := .bytes (utf8 s)

def readInt32 : Payload → Option Int32
  | .varint value => some value.toInt64.toInt32
  | .bytes _ | .fixed _ _ => none

def readInt64 : Payload → Option Int64
  | .varint value => some value.toInt64
  | .bytes _ | .fixed _ _ => none

def Runtime.readString (rt : Runtime) : Payload → Option String
  | .bytes value => rt.text value
  | .varint _ | .fixed _ _ => none

/-- A number of 32 bits is read back from the varint it is written as, the negative ones from ten
bytes. -/
@[simp]
theorem readInt32_int32Payload (value : Int32) : readInt32 (int32Payload value) = some value := by
  simp [readInt32, int32Payload]

/-- A number of 64 bits is read back from the varint it is written as, two's complement for the
negative ones, which take ten bytes. -/
@[simp]
theorem readInt64_int64Payload (value : Int64) : readInt64 (int64Payload value) = some value := by
  simp [readInt64, int64Payload]

/-- A string is read back from the bytes it is written as, by any two libraries: both use
UTF-8. -/
@[simp]
theorem Runtime.readString_stringPayload (rt : Runtime) (s : String) :
    rt.readString (stringPayload s) = some s :=
  rt.text_utf8 s

/-- The library that does no more. -/
def plainRuntime : Runtime where
  write := Wire.encode
  read := Wire.decode
  text bs := String.fromUTF8? ⟨bs.toArray⟩
  write_eq _ := rfl
  read_eq _ _ h := h
  text_utf8 s := dif_pos s.isValidUTF8

/-- The library of the browser.  Its numbers are `float64`s, and its readers take the
varints of the server for what these were written from; what they take another varint for
is its own affair. -/
structure BrowserRuntime extends Runtime where
  int32 : UInt64 → Float64
  int64 : UInt64 → Float64
  int32_written : ∀ value : Int32, int32 value.toInt64.toUInt64 = .finite value.toInt
  int64_written : ∀ value : Int64, int64 value.toUInt64 = ofRat value.toInt

/-- The library that reads every varint as if a server had written it. -/
def plainBrowserRuntime : BrowserRuntime where
  toRuntime := plainRuntime
  int32 value := .finite value.toInt64.toInt32.toInt
  int64 value := ofRat value.toInt64.toInt
  int32_written value := by simp
  int64_written value := by simp

/-- `deserializeBinary` of the browser, `Unmarshal` of the server: the records one after
the other. -/
def Runtime.parse {M : Type} (rt : Runtime) (cases : List (Case M)) (m : M) (bs : List UInt8) :
    Option M :=
  (rt.read bs).bind (Wire.fold cases m)

/-! ### The server -/

namespace Pb

structure InvoiceRequest where
  value : Int32
  deriving DecidableEq

structure InvoiceCheckRequest where
  invoiceId : String
  deriving DecidableEq

structure InvoiceGetRequest where
  invoiceId : String
  deriving DecidableEq

structure InvoiceCheckResponse where
  status : String
  digitalValueRemaining : Int64
  deriving DecidableEq

/-- `varint,1`: the library takes a payload of another type for an unknown field. -/
def InvoiceRequest.tags : List (Case InvoiceRequest) :=
  [(Case.of 1 readInt32 fun value m => { m with value := value }).lenient 0]

/-- `bytes,1` -/
def InvoiceCheckRequest.tags (go : Runtime) : List (Case InvoiceCheckRequest) :=
  [(Case.of 1 go.readString fun s m => { m with invoiceId := s }).lenient 2]

/-- `bytes,1` -/
def InvoiceGetRequest.tags (go : Runtime) : List (Case InvoiceGetRequest) :=
  [(Case.of 1 go.readString fun s m => { m with invoiceId := s }).lenient 2]

/-- The fields of an `InvoiceResponse`, by its tags. -/
def invoiceResponse (r : InvoiceResponse) : List Record :=
  field 1 (by norm_num) (r.fiatValue = 0) (int32Payload r.fiatValue) ++
    field 2 (by norm_num) (r.digitalValue = 0) (int64Payload r.digitalValue) ++
    field 3 (by norm_num) (r.expiry = 0) (int64Payload r.expiry) ++
    field 4 (by norm_num) (r.invoiceId = "") (stringPayload r.invoiceId)

/-- The fields of an `InvoiceCheckResponse`, by its tags. -/
def invoiceCheckResponse (r : InvoiceCheckResponse) : List Record :=
  field 1 (by norm_num) (r.status = "") (stringPayload r.status) ++
    field 2 (by norm_num) (r.digitalValueRemaining = 0) (int64Payload r.digitalValueRemaining)

end Pb

/-- The handlers of `_Invoice_serviceDesc`, with what they unmarshal. -/
def receive (go : Runtime) : String × List UInt8 → Option InvoiceClient.Request
  | ("/protobuf.Invoice/CreateInvoice", bs) =>
      (go.parse Pb.InvoiceRequest.tags ⟨0⟩ bs).map fun m => .createInvoice m.value
  | ("/protobuf.Invoice/GetInvoice", bs) =>
      (go.parse (Pb.InvoiceGetRequest.tags go) ⟨""⟩ bs).map fun m => .getInvoice m.invoiceId
  | ("/protobuf.Invoice/CheckInvoice", bs) =>
      (go.parse (Pb.InvoiceCheckRequest.tags go) ⟨""⟩ bs).map fun m => .checkInvoice m.invoiceId
  | _ => none

/-! ### The browser -/

namespace Proto

structure InvoiceRequest where
  value : Float64
  deriving DecidableEq

structure InvoiceCheckRequest where
  invoiceId : String
  deriving DecidableEq

structure InvoiceGetRequest where
  invoiceId : String
  deriving DecidableEq

structure InvoiceResponse where
  fiatvalue : Float64
  digitalvalue : Float64
  expiry : Float64
  invoiceId : String
  deriving DecidableEq

structure InvoiceCheckResponse where
  status : String
  digitalvalueremaining : Float64
  deriving DecidableEq

/-- `serializeBinaryToWriter`, with `none` where the writer throws. -/
def InvoiceRequest.serializeBinaryToWriter (b : Browser) (m : InvoiceRequest) :
    Option (List Record) :=
  if m.value ≠ .finite 0 then
    (b.writeInt32 m.value).map fun value => field 1 (by norm_num) false (int32Payload value)
  else some []

def InvoiceCheckRequest.serializeBinaryToWriter (m : InvoiceCheckRequest) : List Record :=
  field 1 (by norm_num) (m.invoiceId = "") (stringPayload m.invoiceId)

def InvoiceGetRequest.serializeBinaryToWriter (m : InvoiceGetRequest) : List Record :=
  field 1 (by norm_num) (m.invoiceId = "") (stringPayload m.invoiceId)

/-- `readInt32` of the library, which asserts the wire type. -/
def readInt32 (js : BrowserRuntime) : Payload → Option Float64
  | .varint value => some (js.int32 value)
  | .bytes _ | .fixed _ _ => none

/-- `readInt64` of the library, which asserts the wire type. -/
def readInt64 (js : BrowserRuntime) : Payload → Option Float64
  | .varint value => some (js.int64 value)
  | .bytes _ | .fixed _ _ => none

namespace InvoiceResponse

def new : InvoiceResponse := ⟨.finite 0, .finite 0, .finite 0, ""⟩

def setFiatvalue (value : Float64) (m : InvoiceResponse) : InvoiceResponse :=
  { m with fiatvalue := value }

def setDigitalvalue (value : Float64) (m : InvoiceResponse) : InvoiceResponse :=
  { m with digitalvalue := value }

def setExpiry (value : Float64) (m : InvoiceResponse) : InvoiceResponse :=
  { m with expiry := value }

def setInvoiceId (value : String) (m : InvoiceResponse) : InvoiceResponse :=
  { m with invoiceId := value }

/-- The `switch` of `deserializeBinaryFromReader`. -/
def switch (js : BrowserRuntime) : List (Case InvoiceResponse) :=
  [.of 1 (readInt32 js) setFiatvalue, .of 2 (readInt64 js) setDigitalvalue,
    .of 3 (readInt64 js) setExpiry, .of 4 js.readString setInvoiceId]

end InvoiceResponse

namespace InvoiceCheckResponse

def new : InvoiceCheckResponse := ⟨"", .finite 0⟩

def setStatus (value : String) (m : InvoiceCheckResponse) : InvoiceCheckResponse :=
  { m with status := value }

def setDigitalvalueremaining (value : Float64) (m : InvoiceCheckResponse) : InvoiceCheckResponse :=
  { m with digitalvalueremaining := value }

/-- The `switch` of `deserializeBinaryFromReader`. -/
def switch (js : BrowserRuntime) : List (Case InvoiceCheckResponse) :=
  [.of 1 js.readString setStatus, .of 2 (readInt64 js) setDigitalvalueremaining]

end InvoiceCheckResponse

end Proto

namespace InvoiceClient

/-- `createInvoice`, for the value that has been set. -/
def createInvoice (js : Runtime) (b : Browser) (x : Float64) : Option (String × List UInt8) :=
  (Proto.InvoiceRequest.serializeBinaryToWriter b ⟨x⟩).map fun rs =>
    ("/protobuf.Invoice/CreateInvoice", js.write rs)

def getInvoice (js : Runtime) (id : String) : String × List UInt8 :=
  ("/protobuf.Invoice/GetInvoice",
    js.write (Proto.InvoiceGetRequest.serializeBinaryToWriter ⟨id⟩))

def checkInvoice (js : Runtime) (id : String) : String × List UInt8 :=
  ("/protobuf.Invoice/CheckInvoice",
    js.write (Proto.InvoiceCheckRequest.serializeBinaryToWriter ⟨id⟩))

end InvoiceClient

/-! ### What is sent arrives -/

/-- What one library has written another one reads: the records come back in their order, and the
reader goes through them with its cases. -/
theorem Runtime.parse_write {M : Type} (rt rt' : Runtime) {cases : List (Case M)} {m : M}
    {rs : List Record} (h : ∀ r ∈ rs, r.payload.Fits) :
    rt.parse cases m (rt'.write rs) = Wire.fold cases m rs := by
  rw [parse, rt'.write_eq, rt.read_eq _ _ (Wire.decode_encode h)]
  rfl

/-- A string fits if the number of its bytes does, which is all that the format asks of it. -/
theorem fits_stringPayload {s : String} (h : (utf8 s).length < 2 ^ 64) : (stringPayload s).Fits := h

/-- The default of a number is the number zero of the browser, and not the negative zero. -/
@[simp]
theorem ofRat_zero : ofRat 0 = .finite 0 := by
  have h : ofRat ((0 : ℤ) : ℚ) = .finite ((0 : ℤ) : ℚ) := ofRat_intCast (by norm_num)
  simpa using h

/-- The browser reads the cents of the server as the number they are, and a `float64` holds
every one of them. -/
theorem Proto.readInt32_payload (js : BrowserRuntime) (value : Int32) :
    Proto.readInt32 js (int32Payload value) = some (.finite value.toInt) := by
  simp [Proto.readInt32, int32Payload, js.int32_written]

/-- The browser reads the satoshis and the seconds of the server as the nearest `float64`,
for it has no integers of 64 bits. -/
theorem Proto.readInt64_payload (js : BrowserRuntime) (value : Int64) :
    Proto.readInt64 js (int64Payload value) = some (ofRat value.toInt) := by
  simp [Proto.readInt64, int64Payload, js.int64_written]

section Requests

variable (go js : Runtime)

/-- **A value that is written arrives** at `CreateInvoice`. A zero is not written, and the server
reads the default in its place, which is the same number. -/
theorem createInvoice_received (b : Browser) {x : Float64} {value : Int32}
    (h : b.writeInt32 x = some value) :
    ∃ message, InvoiceClient.createInvoice js b x = some message ∧
      receive go message = some (.createInvoice value) := by
  have hparse : ∀ rs, (∀ rec ∈ rs, rec.payload.Fits) →
      Wire.fold Pb.InvoiceRequest.tags ⟨0⟩ rs = some ⟨value⟩ →
        receive go ("/protobuf.Invoice/CreateInvoice", js.write rs) =
          some (.createInvoice value) := by
    intro rs hfits hfold
    show (go.parse Pb.InvoiceRequest.tags ⟨0⟩ (js.write rs)).map _ = _
    rw [Runtime.parse_write go js hfits, hfold]
    rfl
  unfold InvoiceClient.createInvoice Proto.InvoiceRequest.serializeBinaryToWriter
  by_cases hx : x = .finite 0
  · -- a zero is not written
    have hzero : b.writeInt32 (.finite 0) = some 0 := by simpa using b.writeInt32_toInt 0
    obtain rfl : 0 = value := Option.some.inj (hzero.symm.trans (hx ▸ h))
    rw [if_neg (not_not.2 hx)]
    exact ⟨_, rfl, hparse [] (by simp) rfl⟩
  · rw [if_pos hx, h]
    refine ⟨_, rfl, hparse _ (Wire.fits_field (by trivial)) ?_⟩
    have hread : (Case.of 1 readInt32 fun value (m : Pb.InvoiceRequest) =>
        { m with value := value }).read (int32Payload value) = some fun m =>
          { m with value := value } :=
      Case.read_of (readInt32_int32Payload value)
    show Wire.fold Pb.InvoiceRequest.tags ⟨0⟩ (field 1 _ false (int32Payload value)) = _
    rw [← List.append_nil (field 1 _ _ _), Pb.InvoiceRequest.tags,
      Wire.fold_field rfl (Case.read_lenient.trans hread)]
    · rfl
    · simp

/-- An id that is written arrives, with either request: both have it as their only field, of
number 1. An empty one is left out, and read as the default. -/
theorem fold_invoiceId {M : Type} {set : String → M → M} {m : M} {id : String}
    {h : 0 < 1 ∧ 1 < 2 ^ 29} (hdefault : id = "" → set id m = m) :
    Wire.fold [(Case.of 1 go.readString set).lenient 2] m
      (field 1 h (id = "") (stringPayload id)) = some (set id m) := by
  have hread : ((Case.of 1 go.readString set).lenient 2).read (stringPayload id) =
      some (set id) :=
    Case.read_lenient.trans (Case.read_of (go.readString_stringPayload id))
  rw [← List.append_nil (field 1 _ _ _), Wire.fold_field rfl hread]
  · rfl
  · exact fun hempty => hdefault (of_decide_eq_true hempty)

/-- A request for an invoice arrives with its id, at the handler it was sent to, whatever
characters the id is made of. -/
theorem getInvoice_received {id : String} (h : (utf8 id).length < 2 ^ 64) :
    receive go (InvoiceClient.getInvoice js id) = some (.getInvoice id) := by
  show (go.parse (Pb.InvoiceGetRequest.tags go) ⟨""⟩
    (js.write (field 1 _ (id = "") (stringPayload id)))).map _ = _
  rw [Runtime.parse_write go js (Wire.fits_field (fits_stringPayload h)), Pb.InvoiceGetRequest.tags,
    fold_invoiceId go fun hempty => by rw [hempty]]
  rfl

/-- A request for a check arrives with its id, at the handler it was sent to. -/
theorem checkInvoice_received {id : String} (h : (utf8 id).length < 2 ^ 64) :
    receive go (InvoiceClient.checkInvoice js id) = some (.checkInvoice id) := by
  show (go.parse (Pb.InvoiceCheckRequest.tags go) ⟨""⟩
    (js.write (field 1 _ (id = "") (stringPayload id)))).map _ = _
  rw [Runtime.parse_write go js (Wire.fits_field (fits_stringPayload h)),
    Pb.InvoiceCheckRequest.tags, fold_invoiceId go fun hempty => by rw [hempty]]
  rfl

/-- **Every request arrives as it was sent,** at the handler it was sent to: the three names of
the methods are distinct, and each message is read back by the handler's own reader. -/
theorem request_received (b : Browser) {x : Float64} {value : Int32} {id : String}
    (hx : b.writeInt32 x = some value) (hid : (utf8 id).length < 2 ^ 64) :
    (∃ message, InvoiceClient.createInvoice js b x = some message ∧
        receive go message = some (.createInvoice value)) ∧
      receive go (InvoiceClient.getInvoice js id) = some (.getInvoice id) ∧
      receive go (InvoiceClient.checkInvoice js id) = some (.checkInvoice id) :=
  ⟨createInvoice_received go js b hx, getInvoice_received go js hid,
    checkInvoice_received go js hid⟩

/-- The theorem at the three requests of the new invoice, over the plain runtime on both
sides. -/
theorem request_received_newInvoice :
    (∃ message,
        InvoiceClient.createInvoice plainRuntime plainBrowser (.finite 3200) = some message ∧
          receive plainRuntime message = some (.createInvoice 3200)) ∧
      receive plainRuntime (InvoiceClient.getInvoice plainRuntime "m") = some (.getInvoice "m") ∧
      receive plainRuntime (InvoiceClient.checkInvoice plainRuntime "m") =
        some (.checkInvoice "m") :=
  request_received plainRuntime plainRuntime plainBrowser (by decide +kernel) (by decide +kernel)

end Requests

section Responses

variable (go : Runtime) (js : BrowserRuntime)

/-- **An invoice arrives as it was sent,** but for the rounding of the browser: the cents and the
address are exactly those, the satoshis and the expiry the nearest numbers a float64 can hold. -/
theorem invoiceResponse_received {r : InvoiceResponse} (h : (utf8 r.invoiceId).length < 2 ^ 64) :
    js.parse (Proto.InvoiceResponse.switch js) .new (go.write (Pb.invoiceResponse r)) =
      some ⟨.finite r.fiatValue.toInt, ofRat r.digitalValue.toInt, ofRat r.expiry.toInt,
        r.invoiceId⟩ := by
  have hfits : ∀ rec ∈ Pb.invoiceResponse r, rec.payload.Fits := by
    simp only [Pb.invoiceResponse, List.forall_mem_append]
    exact ⟨⟨⟨Wire.fits_field trivial, Wire.fits_field trivial⟩, Wire.fits_field trivial⟩,
      Wire.fits_field (fits_stringPayload h)⟩
  rw [Runtime.parse_write js.toRuntime go hfits, Pb.invoiceResponse, List.append_assoc,
    List.append_assoc,
    Wire.fold_field rfl (Case.read_of (Proto.readInt32_payload js r.fiatValue)),
    Wire.fold_field rfl (Case.read_of (Proto.readInt64_payload js r.digitalValue)),
    Wire.fold_field rfl (Case.read_of (Proto.readInt64_payload js r.expiry)),
    ← List.append_nil (field 4 _ _ _),
    Wire.fold_field rfl (Case.read_of (js.readString_stringPayload r.invoiceId))]
  · rfl
  -- a default that was left out
  all_goals
    intro hzero
    simp [of_decide_eq_true hzero, Proto.InvoiceResponse.setInvoiceId,
      Proto.InvoiceResponse.setFiatvalue, Proto.InvoiceResponse.setDigitalvalue,
      Proto.InvoiceResponse.setExpiry, Proto.InvoiceResponse.new]

/-- **A status arrives as it was sent,** but for the rounding of the browser: the text is exactly
that, what remains the nearest number a float64 can hold. -/
theorem invoiceCheckResponse_received {r : Pb.InvoiceCheckResponse}
    (h : (utf8 r.status).length < 2 ^ 64) :
    js.parse (Proto.InvoiceCheckResponse.switch js) .new (go.write (Pb.invoiceCheckResponse r)) =
      some ⟨r.status, ofRat r.digitalValueRemaining.toInt⟩ := by
  have hfits : ∀ rec ∈ Pb.invoiceCheckResponse r, rec.payload.Fits := by
    simp only [Pb.invoiceCheckResponse, List.forall_mem_append]
    exact ⟨Wire.fits_field (fits_stringPayload h), Wire.fits_field trivial⟩
  rw [Runtime.parse_write js.toRuntime go hfits, Pb.invoiceCheckResponse,
    Wire.fold_field rfl (Case.read_of (js.readString_stringPayload r.status)),
    ← List.append_nil (field 2 _ _ _),
    Wire.fold_field rfl (Case.read_of (Proto.readInt64_payload js r.digitalValueRemaining))]
  · rfl
  all_goals
    intro hzero
    simp [of_decide_eq_true hzero, Proto.InvoiceCheckResponse.setDigitalvalueremaining,
      Proto.InvoiceCheckResponse.setStatus, Proto.InvoiceCheckResponse.new]

/-- **Every response arrives as it was sent,** and the numbers rounded to the browser's,
which up to `2 ^ 53` they are.  These are what the receipt divides. -/
theorem response_received {r : InvoiceResponse} (c : InvoiceCheckResponse)
    (hid : (utf8 r.invoiceId).length < 2 ^ 64) :
    ∃ m n, js.parse (Proto.InvoiceResponse.switch js) .new (go.write (Pb.invoiceResponse r)) =
        some m ∧
      js.parse (Proto.InvoiceCheckResponse.switch js) .new
        (go.write (Pb.invoiceCheckResponse ⟨c.status.text, c.digitalValueRemaining⟩)) = some n ∧
      m.invoiceId = r.invoiceId ∧ n.status = c.status.text ∧
      m.fiatvalue = .finite r.fiatValue.toInt ∧
      (∀ p ∈ [(m.digitalvalue, r.digitalValue), (m.expiry, r.expiry),
          (n.digitalvalueremaining, c.digitalValueRemaining)],
        p.1 = ofRat p.2.toInt ∧ (|p.2.toInt| ≤ 2 ^ 53 → p.1 = .finite p.2.toInt)) ∧
      Receipt.inBitcoin (some r.digitalValue) = div m.digitalvalue (.finite 100000000) ∧
      Receipt.inBitcoin (some c.digitalValueRemaining) =
        div n.digitalvalueremaining (.finite 100000000) := by
  have hstatus : (utf8 c.status.text).length < 2 ^ 64 := by
    cases c.status <;> decide
  refine ⟨_, _, invoiceResponse_received go js hid, invoiceCheckResponse_received go js hstatus,
    rfl, rfl, rfl, ?_, rfl, rfl⟩
  intro p hp
  have hrounded : p.1 = ofRat p.2.toInt := by
    simp only [List.mem_cons, List.not_mem_nil, or_false] at hp
    rcases hp with rfl | rfl | rfl <;> rfl
  exact ⟨hrounded, fun hle => hrounded.trans (ofRat_intCast hle)⟩

/-- The theorem at the new invoice and its first status, over the plain runtimes: all the numbers
are small, so nothing is rounded. -/
theorem response_received_newInvoice :
    ∃ m n, plainRuntime.parse (Proto.InvoiceResponse.switch plainBrowserRuntime) .new
        (plainRuntime.write (Pb.invoiceResponse ⟨3200, 100000000, 900, "m"⟩)) = some m ∧
      plainRuntime.parse (Proto.InvoiceCheckResponse.switch plainBrowserRuntime) .new
        (plainRuntime.write (Pb.invoiceCheckResponse ⟨Status.unpaid.text, 100000000⟩)) = some n ∧
      m.invoiceId = "m" ∧ n.status = Status.unpaid.text ∧
      m.fiatvalue = .finite (3200 : Int32).toInt ∧
      (∀ p ∈ [(m.digitalvalue, 100000000), (m.expiry, 900), (n.digitalvalueremaining, 100000000)],
        p.1 = ofRat (p.2 : Int64).toInt ∧ (|p.2.toInt| ≤ 2 ^ 53 → p.1 = .finite p.2.toInt)) ∧
      Receipt.inBitcoin (some 100000000) = div m.digitalvalue (.finite 100000000) ∧
      Receipt.inBitcoin (some 100000000) = div n.digitalvalueremaining (.finite 100000000) :=
  response_received plainRuntime plainBrowserRuntime ⟨.unpaid, 100000000⟩ (by decide +kernel)

end Responses

/-! ### What is read of anything -/

section Last

variable (js : BrowserRuntime) {bs : List UInt8} {rs : List Record}

/-- Of the four numbers it knows, the browser reads `1` into the cents. -/
theorem reads_fiatvalue :
    Wire.Reads (Proto.InvoiceResponse.switch js) 1 (Proto.readInt32 js) (·.fiatvalue) :=
  .head (fun _ _ => rfl) <| .cons (by simp) (fun _ _ => rfl) <| .cons (by simp) (fun _ _ => rfl) <|
    .cons (by simp) (fun _ _ => rfl) .nil

/-- Of the four numbers it knows, the browser reads `2` into the satoshis. -/
theorem reads_digitalvalue :
    Wire.Reads (Proto.InvoiceResponse.switch js) 2 (Proto.readInt64 js) (·.digitalvalue) :=
  .tail (by simp) (fun _ _ => rfl) <| .head (fun _ _ => rfl) <|
    .cons (by simp) (fun _ _ => rfl) <| .cons (by simp) (fun _ _ => rfl) .nil

/-- Of the four numbers it knows, the browser reads `3` into the expiry. -/
theorem reads_expiry :
    Wire.Reads (Proto.InvoiceResponse.switch js) 3 (Proto.readInt64 js) (·.expiry) :=
  .tail (by simp) (fun _ _ => rfl) <| .tail (by simp) (fun _ _ => rfl) <|
    .head (fun _ _ => rfl) <| .cons (by simp) (fun _ _ => rfl) .nil

/-- Of the four numbers it knows, the browser reads `4` into the address. -/
theorem reads_invoiceId :
    Wire.Reads (Proto.InvoiceResponse.switch js) 4 js.readString (·.invoiceId) :=
  .tail (by simp) (fun _ _ => rfl) <| .tail (by simp) (fun _ _ => rfl) <|
    .tail (by simp) (fun _ _ => rfl) <| .head (fun _ _ => rfl) .nil

/-- A record of a number that the browser knows has the wire type the message gives it:
varints for the three amounts, and bytes for the address. -/
def Proto.InvoiceResponse.Typed (r : Record) : Prop :=
  (r.number = 1 ∨ r.number = 2 ∨ r.number = 3 → ∃ value, r.payload = .varint value) ∧
    (r.number = 4 → ∃ value, r.payload = .bytes value)

/-- **A message takes the last record of each number it knows,** whatever else the records
are, in whatever order they were written, and whatever the library makes of the varints.
Where the numbers it knows have their wire types, the message is read exactly where the
addresses in it are texts. -/
theorem deserialized_last (hbytes : bs = Wire.encode rs) (hfits : ∀ r ∈ rs, r.payload.Fits)
    (htyped : ∀ r ∈ rs, Proto.InvoiceResponse.Typed r) :
    ((js.parse (Proto.InvoiceResponse.switch js) .new bs).isSome = true ↔
        ∀ r ∈ rs, r.number = 4 → (js.readString r.payload).isSome = true) ∧
      ∀ m, js.parse (Proto.InvoiceResponse.switch js) .new bs = some m →
        Wire.valueOf 1 (Proto.readInt32 js) (.finite 0) rs = some m.fiatvalue ∧
        Wire.valueOf 2 (Proto.readInt64 js) (.finite 0) rs = some m.digitalvalue ∧
        Wire.valueOf 3 (Proto.readInt64 js) (.finite 0) rs = some m.expiry ∧
        Wire.valueOf 4 js.readString "" rs = some m.invoiceId := by
  have hparse : js.parse (Proto.InvoiceResponse.switch js) .new bs =
      Wire.fold (Proto.InvoiceResponse.switch js) .new rs := by
    rw [Runtime.parse, js.read_eq bs rs (hbytes ▸ Wire.decode_encode hfits)]
    rfl
  have hnodup : ((Proto.InvoiceResponse.switch js).map (·.number)).Nodup := by
    simp [Proto.InvoiceResponse.switch]
  -- the readers of the numbers take any varint
  have hint32 : ∀ r ∈ rs, r.number = 1 → (Proto.readInt32 js r.payload).isSome = true := by
    intro r hr hn
    obtain ⟨value, hvalue⟩ := (htyped r hr).1 (Or.inl hn)
    rw [hvalue]
    rfl
  have hint64 : ∀ r ∈ rs, r.number = 2 ∨ r.number = 3 →
      (Proto.readInt64 js r.payload).isSome = true := by
    intro r hr hn
    obtain ⟨value, hvalue⟩ := (htyped r hr).1 (Or.inr hn)
    rw [hvalue]
    rfl
  rw [hparse]
  refine ⟨?_, fun m hm => ⟨(reads_fiatvalue js).fold hm, (reads_digitalvalue js).fold hm,
    (reads_expiry js).fold hm, (reads_invoiceId js).fold hm⟩⟩
  rw [Wire.fold_isSome_iff hnodup]
  simp only [Proto.InvoiceResponse.switch, List.forall_mem_cons, Case.number_of, Case.isSome_of,
    List.not_mem_nil, false_implies, implies_true, and_true]
  exact ⟨fun h => h.2.2.2, fun h => ⟨hint32, fun r hr hn => hint64 r hr (Or.inl hn),
    fun r hr hn => hint64 r hr (Or.inr hn), h⟩⟩

/-- An invoice of a server to come, with a field of its own, and two ids. -/
def laterRecords : List Record :=
  [⟨4, stringPayload "m", by decide, by decide⟩, ⟨9, .fixed .four ⟨[1, 2, 3, 4], rfl⟩, by decide,
    by decide⟩, ⟨1, int32Payload 3200, by decide, by decide⟩,
    ⟨4, stringPayload "n", by decide, by decide⟩]

/-- The ids are short texts, whose lengths can be written down, and all the other payloads are
numbers. -/
theorem laterRecords_fits : ∀ r ∈ laterRecords, r.payload.Fits := by
  have hm : (stringPayload "m").Fits := fits_stringPayload (by decide +kernel)
  have hn : (stringPayload "n").Fits := fits_stringPayload (by decide +kernel)
  have hcents : (int32Payload 3200).Fits := trivial
  simp only [laterRecords, List.forall_mem_cons]
  exact ⟨hm, trivial, hcents, hn, fun r hr => absurd hr List.not_mem_nil⟩

/-- The known numbers come in their own wire types, also where they come again. -/
theorem laterRecords_typed : ∀ r ∈ laterRecords, Proto.InvoiceResponse.Typed r := by
  simp [laterRecords, Proto.InvoiceResponse.Typed, stringPayload, int32Payload]

/-- The theorem at records of which two have one number, and one has a number that is not
known. -/
theorem deserialized_last_laterRecords :
    ((plainRuntime.parse (Proto.InvoiceResponse.switch plainBrowserRuntime) .new
        (Wire.encode laterRecords)).isSome = true ↔
        ∀ r ∈ laterRecords, r.number = 4 → (plainRuntime.readString r.payload).isSome = true) ∧
      ∀ m, plainRuntime.parse (Proto.InvoiceResponse.switch plainBrowserRuntime) .new
          (Wire.encode laterRecords) = some m →
        Wire.valueOf 1 (Proto.readInt32 plainBrowserRuntime) (.finite 0) laterRecords =
          some m.fiatvalue ∧
        Wire.valueOf 2 (Proto.readInt64 plainBrowserRuntime) (.finite 0) laterRecords =
          some m.digitalvalue ∧
        Wire.valueOf 3 (Proto.readInt64 plainBrowserRuntime) (.finite 0) laterRecords =
          some m.expiry ∧
        Wire.valueOf 4 plainRuntime.readString "" laterRecords = some m.invoiceId :=
  deserialized_last plainBrowserRuntime rfl laterRecords_fits laterRecords_typed

end Last

end BitcoinInvoice
