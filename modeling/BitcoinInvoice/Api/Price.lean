/-
# The market price

`getPrice` of `server/server/api/api.go`: the value of the invoice in dollars goes
into the query, and the body of the answer, a number of bitcoins, comes back as
satoshis.  The error of `ioutil.ReadAll` is dropped (`body, _ := …`), so what is
parsed is the part of the body that arrived, whole or not.
-/

import BitcoinInvoice.Api.Models

namespace BitcoinInvoice

/-- `fiat`: the value of an invoice in dollars. -/
def fiat (fiatValue : Int32) : Float64 := (Float64.ofRat fiatValue.toInt).div (Float64.ofRat 100)

/-- The URL `getPrice` sends its request to. -/
def priceURL (fiatValue : Int32) : String :=
  "https://blockchain.com/tobtc?currency=USD&value=" ++ (fiat fiatValue).sprintf2f

/-- `digitalValue`: a number of bitcoins in satoshis. -/
def satoshis (convert : Float64 → Int64) (digitalFloatValue : Float64) : Int64 :=
  (digitalFloatValue.mul (Float64.ofRat (10 ^ 8))).toInt64 convert

/-- The satoshi value computed from a body, where it parses. -/
def quote (convert : Float64 → Int64) (body : List Char) : Option Int64 :=
  (Float64.parseFloat body).map (satoshis convert)

/-- `getPrice`. -/
def getPrice (client : HttpClient) (convert : Float64 → Int64) (fiatValue : Int32) :
    Except String Int64 :=
  match client.newRequest with
  | .error _ => .error "cannot build request for xbt/usd"
  | .ok _ =>
      match client.clientDo (priceURL fiatValue) with
      | .error _ => .error "cannot build request for xbt/usd"
      | .ok resp =>
          if resp.status ≠ "200 OK" then .error "cannot build request for xbt/usd"
          else
            -- `body, _ := ioutil.ReadAll(resp.Body)`
            match Float64.parseFloat resp.readAll.1 with
            | none => .error "cannot build request for xbt/usd"
            | some digitalFloatValue => .ok (satoshis convert digitalFloatValue)

example : priceURL 3200 = "https://blockchain.com/tobtc?currency=USD&value=32.00" := by
  decide +kernel

/-- **What `getPrice` accepts:** a 200 answer to the query of its own value whose
delivered part parses. -/
theorem getPrice_eq_ok_iff {client : HttpClient} {convert : Float64 → Int64} {fiatValue : Int32}
    {digitalValue : Int64} :
    getPrice client convert fiatValue = .ok digitalValue ↔
      (∃ u, client.newRequest = .ok u) ∧ ∃ resp, client.clientDo (priceURL fiatValue) = .ok resp ∧
        resp.status = "200 OK" ∧ quote convert resp.delivered = some digitalValue := by
  unfold getPrice quote Response.readAll
  cases client.newRequest with
  | error e => simp
  | ok u =>
      cases client.clientDo (priceURL fiatValue) with
      | error e => simp
      | ok resp =>
          by_cases hs : resp.status = "200 OK"
          · cases hf : Float64.parseFloat resp.delivered <;> simp [hs, hf]
          · simp [hs]

/-- `getPrice` asks `url`: what the client answers there is all it learns from it, so two
clients that answer alike there and build the request alike give one price. -/
def Asks (fiatValue : Int32) (url : String) : Prop :=
  ∀ (client client' : HttpClient) (convert : Float64 → Int64),
    client.newRequest = client'.newRequest → client.clientDo url = client'.clientDo url →
      getPrice client convert fiatValue = getPrice client' convert fiatValue

/-- The client, but for one URL that it has no answer for. -/
def HttpClient.without (client : HttpClient) (url : String) : HttpClient where
  newRequest := client.newRequest
  clientDo := Function.update client.clientDo url (.error "no answer")

/-- **One URL is asked,** that of the value: a client that fails there and a client that
does not, but agrees with it everywhere else, tell the URLs apart. -/
theorem asks_iff {fiatValue : Int32} {url : String} :
    Asks fiatValue url ↔ url = priceURL fiatValue := by
  constructor
  · intro h
    by_contra hne
    have halike := h (.constant "1".toList) ((HttpClient.constant "1".toList).without
      (priceURL fiatValue)) (fun _ => 0) rfl (Function.update_of_ne hne _ _).symm
    have hone : Float64.parseFloat "1".toList = some (.finite 1) := by decide +kernel
    have hanswer : getPrice (.constant "1".toList) (fun _ => 0) fiatValue =
        .ok (satoshis (fun _ => 0) (.finite 1)) := by
      simp only [getPrice, HttpClient.constant, Response.readAll, hone, ne_eq, not_true, if_false]
    have hnone : getPrice ((HttpClient.constant "1".toList).without (priceURL fiatValue))
        (fun _ => 0) fiatValue = .error "cannot build request for xbt/usd" := by
      simp [getPrice, HttpClient.without, HttpClient.constant]
    rw [hanswer, hnone] at halike
    cases halike
  · rintro rfl client client' convert hrequest hanswer
    unfold getPrice
    rw [hrequest, hanswer]

/-- The factor between bitcoins and satoshis is a `float64` without rounding. -/
theorem ofRat_pow10 : Float64.ofRat (10 ^ 8) = .finite (10 ^ 8) := by
  have hcast : ((100000000 : ℤ) : ℚ) = 10 ^ 8 := by norm_num
  rw [← hcast]
  exact Float64.ofRat_intCast (by norm_num)

/-- The satoshi value of a finite quote fits `int64`. -/
def Fits (x : ℚ) : Prop :=
  -2 ^ 63 ≤ Float64.trunc (Float64.round (x * 10 ^ 8)) ∧
    Float64.trunc (Float64.round (x * 10 ^ 8)) < 2 ^ 63

instance (x : ℚ) : Decidable (Fits x) := by
  unfold Fits
  infer_instance

/-- A quote that fits is scaled by a hundred million, rounded once and truncated, and the
conversion to an integer is in its range. -/
theorem satoshis_finite {convert : Float64 → Int64} {x : ℚ} (h : Fits x) :
    (satoshis convert (.finite x)).toInt = Float64.trunc (Float64.round (x * 10 ^ 8)) := by
  have habs := Float64.abs_lt_abs_trunc_add_one (Float64.round (x * 10 ^ 8))
  have htrunc : |(Float64.trunc (Float64.round (x * 10 ^ 8)) : ℚ)| ≤ 2 ^ 63 := by
    rw [abs_le]
    constructor
    · exact_mod_cast h.1
    · exact_mod_cast h.2.le
  have hfin : Float64.ofRat (x * 10 ^ 8) = .finite (Float64.round (x * 10 ^ 8)) := by
    refine Float64.ofRat_eq_finite (habs.trans_le ?_)
    linarith
  rw [satoshis, ofRat_pow10, Float64.mul, hfin]
  exact Float64.toInt64_finite h.1 h.2

/-- **A quote is worth at least a satoshi exactly from `1 - 2^-54` satoshis on,** where the
product rounds up to one; anything below is truncated to nothing. -/
theorem satoshis_pos_iff {convert : Float64 → Int64} {x : ℚ} (h : Fits x) :
    0 < satoshis convert (.finite x) ↔ 1 - 1 / 2 ^ 54 ≤ x * 10 ^ 8 := by
  rw [Int64.lt_iff_toInt_lt, satoshis_finite h, Int64.toInt_zero, Float64.trunc_pos_iff,
    Float64.one_le_round_iff]

end BitcoinInvoice
