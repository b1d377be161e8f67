import Mvpmc.Web.Radio

/-! How much of a request goes into the two buffers that a form passes through. -/
namespace Mvpmc.Web
open Mvpmc.Lib
open Mvpmc.Cmyth (cstring)
open Mvpmc.Playlist (ascii)

/-- The first line is complete and names one of the two methods. -/
def isAccepted (line : List UInt8) : Bool :=
  match sscanfRequest line with
  | none => false
  | some (method, _, _) => method.map Playlist.toLower = ascii "get" || method.map Playlist.toLower = ascii "post"

/-- A body that is read with a negative length and is as long as the buffer. -/
def UncheckedBody (w : Nat) (stream : List UInt8) : Prop :=
  match lines 10 (sizeofLine - 1) stream with
  | [] => False
  | line :: rest =>
    let headers := headerLines w rest
    isAccepted (cstring line) = true ∧ headers.any hasFormType = true ∧ contentLength w headers < 0 ∧
      sizeofLine ≤ (rest.drop headers.length).flatten.length

section Body
variable {w : Nat}

theorem bmod_lt (n : Int) : -2 ^ 31 ≤ toSigned 32 n ∧ toSigned 32 n < 2 ^ 31 := by
  have h1 := Int.le_bmod (x := n) (m := 2 ^ 32) (by norm_num)
  have h2 := Int.bmod_lt (x := n) (m := 2 ^ 32) (by norm_num)
  rw [toSigned]
  push_cast at h1 h2
  norm_num at h1 h2 ⊢
  omega

theorem contentLength_ge (headers : List (List UInt8)) : -2 ^ 31 ≤ contentLength w headers := by
  rw [contentLength]
  cases hl : (headers.filterMap (lengthIn w)).getLast? with
  | none => norm_num
  | some n =>
    obtain ⟨line, -, hline⟩ := List.mem_filterMap.mp (List.mem_of_getLast? hl)
    obtain ⟨ptr, -, rfl⟩ := Option.map_eq_some_iff.mp hline
    exact (bmod_lt _).1

/-- The number of bytes that `fread` stores for a length that has passed the check. -/
theorem body_length_le_iff (hw : 32 ≤ w) {n : Int} (hlo : -2 ^ 31 ≤ n) (hhi : n ≤ 5000) (rest : List UInt8) :
    (rest.take (n % 2 ^ w).toNat).length ≤ sizeofLine - 1 ↔ ¬ (n < 0 ∧ sizeofLine ≤ rest.length) := by
  have hpow : (2 : Int) ^ 32 ≤ 2 ^ w := pow_le_pow_right₀ (by norm_num) hw
  rw [List.length_take, sizeofLine]
  rcases lt_or_ge n 0 with hneg | hpos
  · have hmod : n % 2 ^ w = n + 2 ^ w := by
      rw [← Int.add_emod_right, Int.emod_eq_of_lt (by omega) (by omega)]
    rw [hmod]
    omega
  · rw [Int.emod_eq_of_lt hpos (by omega)]
    omega

/-- Nothing behind the line that ends the headers matters to them. -/
theorem headerLines_append {ls : List (List UInt8)} (h : ∃ l ∈ ls, endsHeaders w (cstring l) = true)
    (rest : List (List UInt8)) : headerLines w (ls ++ rest) = headerLines w ls := by
  have hlt : (ls.map cstring).findIdx (endsHeaders w) < (ls.map cstring).length := by
    rw [List.findIdx_lt_length]
    simpa using h
  rw [headerLines, headerLines, List.map_append, List.findIdx_append, if_pos hlt,
    List.take_append_of_le_length (Nat.succ_le_of_lt hlt)]

theorem serve_stored_le_iff (hw : 32 ≤ w) (mytoken stream : List UInt8) :
    (serve w mytoken stream).stored ≤ sizeofLine - 1 ↔ ¬ UncheckedBody w stream := by
  rw [serve, UncheckedBody]
  cases lines 10 (sizeofLine - 1) stream with
  | nil => simp
  | cons line rest =>
    simp only [isAccepted]
    cases sscanfRequest (cstring line) with
    | none => simp
    | some request =>
      obtain ⟨method, path, protocol⟩ := request
      have hrun : readHeaders w {} rest = (⟨(headerLines w rest).any hasFormType, contentLength w (headerLines w rest)⟩,
          rest.drop (headerLines w rest).length) := by
        rw [readHeaders_eq, Bool.false_or, contentLength]
      simp only [hrun, Bool.or_eq_true, decide_eq_true_eq, ← not_or]
      by_cases hlarge : contentLength w (headerLines w rest) > 5000
      · have hpos : ¬ contentLength w (headerLines w rest) < 0 := by omega
        simp [hlarge, hpos]
      · have hbody := body_length_le_iff hw (contentLength_ge _) (Int.not_lt.mp hlarge)
          (rest.drop (headerLines w rest).length).flatten
        by_cases hmethod : method.map Playlist.toLower = ascii "get" ∨ method.map Playlist.toLower = ascii "post"
        · cases hform : (headerLines w rest).any hasFormType with
          | false => simp [hlarge, hmethod]
          | true => simpa only [hlarge, hmethod, not_true_eq_false, or_false, if_false, if_true, true_and] using hbody
        · simp [hmethod]

end Body

/-- What is read of a body fits into `line`, with room for the zero, unless a body as long as `line` is read with a
negative length; and what is decoded of a form fits into `form_value` with its zero if and only if the fields are small
that are looked at. -/
theorem formInput_inside_iff {w : Nat} (hw : 32 ≤ w) (mytoken stream : List UInt8) (radio : Radio) (line : List UInt8) :
    ((serve w mytoken stream).stored ≤ sizeofLine - 1 ↔ ¬ UncheckedBody w stream) ∧
      ((∀ value ∈ (mvpConfigRadio radio line).decoded, value.length + 1 ≤ sizeofFormValue) ↔ SmallFields radio line) :=
  ⟨serve_stored_le_iff hw mytoken stream, radio_fits_iff radio line⟩


theorem formInput_inside_of_short : ((serve 32 (ascii "^") (ascii "GET / HTTP/1.0\n\n")).stored ≤ sizeofLine - 1 ↔
      ¬ UncheckedBody 32 (ascii "GET / HTTP/1.0\n\n")) ∧
    ((∀ value ∈ (mvpConfigRadio ⟨true, []⟩ (ascii "url=a&desc=b")).decoded, value.length + 1 ≤ sizeofFormValue) ↔
      SmallFields ⟨true, []⟩ (ascii "url=a&desc=b")) :=
  formInput_inside_iff (Nat.le_refl 32) (ascii "^") (ascii "GET / HTTP/1.0\n\n") ⟨true, []⟩ (ascii "url=a&desc=b")

/-- A request with a length below zero. -/
def negativeLength : List (List UInt8) := [
  ascii "POST /radio HTTP/1.1", ascii "Content-Type: application/x-www-form-urlencoded", ascii "Content-Length: -1", []]

def longBody (request : List (List UInt8)) : List UInt8 :=
  request.flatMap (· ++ [10]) ++ List.replicate sizeofLine 97

/-- Ten thousand bytes go into `line` and a zero behind them, and a field of 1025 characters into `form_value`. -/
theorem formInput_overflows :
    ¬ (serve 32 (ascii "^") (longBody negativeLength)).stored ≤ sizeofLine - 1 ∧
      ¬ ∀ value ∈ (mvpConfigRadio ⟨true, []⟩ (ascii "=Play" ++ List.replicate 1020 97)).decoded,
        value.length + 1 ≤ sizeofFormValue := by
  constructor
  · rw [serve_stored_le_iff (Nat.le_refl 32), not_not, UncheckedBody, longBody,
      lines_flatMap_append (by decide)]
    let headers := negativeLength.tail.map (· ++ [10])
    have hsplit : negativeLength.map (· ++ [10]) = (ascii "POST /radio HTTP/1.1" ++ [10]) :: headers := rfl
    have hbody : (lines 10 (sizeofLine - 1) (List.replicate sizeofLine (97 : UInt8))).flatten.length = sizeofLine := by
      rw [lines_flatten, List.length_replicate]
    have hend : ∃ l ∈ headers, endsHeaders 32 (cstring l) = true := by decide
    have hheaders := headerLines_append hend (lines 10 (sizeofLine - 1) (List.replicate sizeofLine 97))
    have hlen : (headerLines 32 headers).length = headers.length := by decide
    simp only [hsplit, List.cons_append, hheaders, hlen, List.drop_left, hbody, Nat.le_refl, and_true]
    decide
  · decide +kernel

end Mvpmc.Web
