import Mvpmc.Web.Request
import Mvpmc.Lib.Tokens

/-! The form for the radio (`mvp_config_radio`, `web_config.c`), and how much of it is decoded into one buffer. -/
namespace Mvpmc.Web
open Mvpmc.Lib
open Mvpmc.Cmyth (cstring)
open Mvpmc.Playlist (ascii strstr)

/-- The size of `form_value`. -/
def sizeofFormValue : Nat := 1024

/-- `idle` tells that no sound is played and the file browser is shown, and `freed` is the string at `ptr` after the copy
of the form has been given back. -/
structure Radio where
  idle : Bool
  freed : List UInt8

/-- The result, the bytes that each call of `strdecode` stores in front of its zero, and what is written to the playlist
file. -/
structure RadioResult where
  rc : Int := 0
  decoded : List (List UInt8) := []
  playlist : List UInt8 := []
  deriving DecidableEq

/-- What follows the first `=` of the string in `form_value`. -/
def afterEquals (value : List UInt8) : Option (List UInt8) :=
  match (cstring value).dropWhile (· ≠ 61) with
  | [] => none
  | _ :: equals => some equals

/-- The entry that is written for an address. -/
def entry (title equals : List UInt8) : List UInt8 :=
  if 0 < equals.length ∧ equals.length ≤ 128 then
    ascii "#EXTINF:-1," ++ (if title = [] then List.replicate (50 - equals.length) 32 ++ equals else title) ++ [10] ++
      equals ++ [10]
  else []

/-- The loop of `case 0`. -/
def saveStations (title : List UInt8) : List (List UInt8) → RadioResult
  | [] => {}
  | ptr :: ptrs =>
    if 1024 < ptr.length then { rc := -1 }
    else
      let value := strdecode ptr
      match afterEquals value with
      | none => { rc := -1, decoded := [value] }
      | some equals =>
        let isDesc := (ascii "desc").isPrefixOf (cstring value)
        let isUrl := !isDesc && (ascii "url").isPrefixOf (cstring value)
        let r := saveStations (if isDesc then equals.take 49 else if isUrl then [] else title) ptrs
        { r with
          decoded := value :: r.decoded
          playlist := (if isUrl then entry title equals else []) ++ r.playlist }

def isPlay (ptr : List UInt8) : Bool := (strstr ptr (ascii "=Play")).isSome

/-- The fields that end the first loop. -/
def isSubmit (ptr : List UInt8) : Bool := isPlay ptr || (ascii "Control=").isPrefixOf ptr

/-- The fields of a form. -/
def fields (line : List UInt8) : List (List UInt8) := tokens 38 (cstring line)

/-- `mvp_config_radio`. What the buttons do to the player is left out. -/
def mvpConfigRadio (radio : Radio) (line : List UInt8) : RadioResult :=
  match (fields line).find? isSubmit with
  | none =>
    let r := saveStations [] (fields line)
    { r with playlist := ascii "#EXTM3U\n" ++ r.playlist }
  | some ptr =>
    let value := strdecode ptr
    match afterEquals value with
    | none => { rc := -1, decoded := [value] }
    | some equals =>
      if isPlay ptr then
        if radio.idle then { decoded := [value, strdecode (cstring radio.freed)] } else { rc := -1, decoded := [value] }
      else { rc := if equals.head? = some 80 then 0x3D else 0, decoded := [value] }

/-- The places where three characters stand for one. -/
def isEscape : List UInt8 → Bool
  | 37 :: x :: y :: _ => isxdigit x && isxdigit y
  | _ => false

def escapes (field : List UInt8) : Nat := field.tails.countP isEscape

/-- A field whose decoded bytes leave room for the zero. -/
def Small (field : List UInt8) : Prop := field.length < sizeofFormValue + 2 * escapes field

/-- The loop goes on behind these fields. -/
def Continues (field : List UInt8) : Prop := field.length ≤ 1024 ∧ (afterEquals (strdecode field)).isSome

/-- Which fields of a form must be small: the one of the button that was pressed and, if it is looked at again, what is
read of it then; without a button those of just 1024 characters that the loop comes to. -/
def SmallFields (radio : Radio) (line : List UInt8) : Prop :=
  match (fields line).find? isSubmit with
  | some ptr =>
    Small ptr ∧
      (isPlay ptr → (afterEquals (strdecode ptr)).isSome → radio.idle → Small (cstring radio.freed))
  | none =>
    ∀ earlier field later, fields line = earlier ++ field :: later → (∀ f ∈ earlier, Continues f) →
      field.length = 1024 → 0 < escapes field

section Decode

theorem isxdigit_ne {c : UInt8} (h : isxdigit c = true) : c ≠ 37 := by
  rintro rfl
  exact absurd h (by decide)

theorem isEscape_of_ne {c : UInt8} (h : c ≠ 37) (text : List UInt8) : isEscape (c :: text) = false := by
  unfold isEscape
  split
  · rename_i heq
    exact absurd (List.cons.inj heq).1 h
  · rfl

theorem escapes_cons (b : UInt8) (text : List UInt8) :
    escapes (b :: text) = escapes text + if isEscape (b :: text) then 1 else 0 := by
  rw [escapes, escapes, List.tails_cons, List.countP_cons]

/-- An escape is decoded into one byte. -/
theorem strdecode_length (field : List UInt8) : (strdecode field).length + 2 * escapes field = field.length := by
  induction field using strdecode.induct with
  | case1 => rfl
  | case2 x y text h ih =>
    have hx := isxdigit_ne (Bool.and_eq_true_iff.mp h).1
    have hy := isxdigit_ne (Bool.and_eq_true_iff.mp h).2
    rw [strdecode, if_pos h, escapes_cons, escapes_cons, escapes_cons, isEscape_of_ne hx, isEscape_of_ne hy]
    simp only [isEscape, h, List.length_cons, if_true, Bool.false_eq_true, if_false]
    omega
  | case3 x y text h ih =>
    rw [strdecode, if_neg h, escapes_cons]
    simp only [isEscape, h, List.length_cons, Bool.false_eq_true, if_false] at ih ⊢
    omega
  | case4 b text hb ih =>
    have he : isEscape (b :: text) = false := by
      unfold isEscape
      split
      · rename_i x y rest heq
        exact absurd (List.cons.inj heq).2 (hb x y rest (List.cons.inj heq).1)
      · rfl
    rw [strdecode.eq_3 _ _ hb, escapes_cons, he, List.length_cons, List.length_cons]
    simp only [Bool.false_eq_true, if_false]
    omega

/-- A decoded field with its zero fits in the buffer. -/
theorem decoded_fits_iff (field : List UInt8) : (strdecode field).length < sizeofFormValue ↔ Small field := by
  have hlen := strdecode_length field
  rw [Small]
  omega

/-- The check of the loop lets one length through. -/
theorem decoded_fits_iff_of_le {field : List UInt8} (h : field.length ≤ 1024) :
    (strdecode field).length < sizeofFormValue ↔ (field.length = 1024 → 0 < escapes field) := by
  rw [decoded_fits_iff, Small, sizeofFormValue]
  omega

end Decode

/-- All that the loop decodes fits if and only if every field does that it comes to. -/
theorem saveStations_fits_iff (title : List UInt8) (ptrs : List (List UInt8)) :
    (∀ value ∈ (saveStations title ptrs).decoded, value.length < sizeofFormValue) ↔
      ∀ earlier field later, ptrs = earlier ++ field :: later → (∀ f ∈ earlier, Continues f) →
        field.length = 1024 → 0 < escapes field := by
  induction ptrs generalizing title with
  | nil => simp [saveStations]
  | cons ptr ptrs ih =>
    have hcons : (∀ earlier field later, ptr :: ptrs = earlier ++ field :: later → (∀ f ∈ earlier, Continues f) →
        field.length = 1024 → 0 < escapes field) ↔ (ptr.length = 1024 → 0 < escapes ptr) ∧
        (Continues ptr → ∀ earlier field later, ptrs = earlier ++ field :: later → (∀ f ∈ earlier, Continues f) →
          field.length = 1024 → 0 < escapes field) := by
      constructor
      · intro h
        refine ⟨h [] ptr ptrs rfl nofun, fun hc earlier field later heq he => ?_⟩
        exact h (ptr :: earlier) field later (by rw [heq, List.cons_append]) (by simpa [hc] using he)
      · rintro ⟨hptr, hrest⟩ (_ | ⟨f, earlier⟩) field later heq he
        · obtain ⟨rfl, -⟩ := List.cons.inj heq
          exact hptr
        · rw [List.cons_append] at heq
          obtain ⟨rfl, htail⟩ := List.cons.inj heq
          exact hrest (he _ List.mem_cons_self) earlier field later htail fun g hg => he g (List.mem_cons_of_mem _ hg)
    rw [hcons, saveStations]
    by_cases hlen : 1024 < ptr.length
    · have hnot : ¬ Continues ptr := fun hc => absurd hc.1 (by omega)
      simp only [if_pos hlen, List.not_mem_nil, false_implies, implies_true, hnot, and_true, true_iff]
      omega
    · have hfit := decoded_fits_iff_of_le (Nat.le_of_not_lt hlen)
      rw [if_neg hlen]
      cases heq : afterEquals (strdecode ptr) with
      | none =>
        have hnot : ¬ Continues ptr := fun hc => by simpa [heq] using hc.2
        simp only [heq, List.mem_singleton, forall_eq, hfit, hnot, false_implies, and_true]
      | some equals =>
        have hgo : Continues ptr := ⟨Nat.le_of_not_lt hlen, by rw [heq]; rfl⟩
        simp only [heq, List.mem_cons, forall_eq_or_imp, hfit, hgo, true_implies, ih]

/-- All that the form decodes fits if and only if the fields are small that it looks at. -/
theorem radio_fits_iff (radio : Radio) (line : List UInt8) :
    (∀ value ∈ (mvpConfigRadio radio line).decoded, value.length < sizeofFormValue) ↔ SmallFields radio line := by
  rw [mvpConfigRadio, SmallFields]
  cases hs : (fields line).find? isSubmit with
  | none => exact saveStations_fits_iff [] _
  | some ptr =>
    cases he : afterEquals (strdecode ptr) with
    | none => simp [he, decoded_fits_iff]
    | some equals =>
      by_cases hp : isPlay ptr = true
      · by_cases hi : radio.idle = true <;> simp [he, hp, hi, decoded_fits_iff]
      · simp [he, hp, decoded_fits_iff]

end Mvpmc.Web
