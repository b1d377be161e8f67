import Mvpmc.Mclient.CliDecode
import Mathlib.Data.List.Forall2
import Mathlib.Data.List.TakeWhile

/-! Reply lines decoded as they arrive, against each line decoded alone. -/
namespace Mvpmc.Mclient
open Mvpmc.Lib

/-- Lines of text in receives that are cut between lines only, in front of a newline or behind it. -/
structure CutAtLines (lines pieces : List (List UInt8)) : Prop where
  text : ∀ line ∈ lines, 10 ∉ line ∧ 0 ∉ line
  stream : pieces.flatten = lines.flatMap (· ++ [10])
  whole : pieces.flatMap (tokens 10) = lines.filter (· ≠ [])

section
variable (theChar : UInt8) (decodedPlayerId : List UInt8) (parse : MclientCmd → MclientCmd)

/-- The fields that the parameters do not overwrite are empty, and so is one that a parameter with a newline at the
end of its field runs into. -/
def Clear : List (List UInt8) → List (List UInt8) → Prop
  | [], fields => ∀ field ∈ fields, field = []
  | param :: params, fields =>
    ((paramField theChar param).length = MAX_PARAM_SIZE → (paramField theChar param).getLast? = some 10 →
      fields.tail.headD [] = []) ∧ Clear params fields.tail

/-- A line of this player finds nothing left over in the record. -/
def LineClear (r : MclientCmd) (line : List UInt8) : Prop :=
  match tokens 32 line with
  | word :: _ :: params =>
    (cliDecodeString theChar word).isPrefixOf decodedPlayerId = true → Clear theChar params r.param
  | _ => True

/-- No line of a receive finds anything left over. -/
def Kept (r : MclientCmd) : List (List UInt8) → Prop
  | [] => True
  | line :: lines =>
    LineClear theChar decodedPlayerId r line ∧
      ((decodeLine theChar decodedPlayerId parse r line).crashed = false →
        Kept (decodeLine theChar decodedPlayerId parse r line).response lines)

def AllKept : List (List UInt8) → Prop
  | [] => True
  | piece :: pieces =>
    Kept theChar decodedPlayerId parse cliResetCmd (tokens 10 piece) ∧
      ((decodeLines theChar decodedPlayerId parse cliResetCmd (tokens 10 piece)).crashed = false → AllKept pieces)

/-- The parameters of a line leave room for the zero behind them. -/
def Short (line : List UInt8) : Prop :=
  ∀ param ∈ (tokens 32 line).drop 2, (paramField theChar param).length < MAX_PARAM_SIZE

/-- Every line decoded with a record of its own. -/
def decodeAlone : List (List UInt8) → List MclientCmd × Bool
  | [] => ([], false)
  | line :: lines =>
    let d := decodeLine theChar decodedPlayerId parse cliResetCmd line
    if d.crashed then (d.handed, true) else (d.handed ++ (decodeAlone lines).1, (decodeAlone lines).2)

end

section Fields
variable {theChar : UInt8} {fields params : List (List UInt8)}

theorem length_paramField_le (param : List UInt8) : (paramField theChar param).length ≤ MAX_PARAM_SIZE :=
  List.length_take_le _ _

theorem chopString_of_empty (field : List UInt8) (h : fields.headD [] = []) : chopString field fields = (chop field, fields) := by
  cases fields with
  | nil => rfl
  | cons next fields => rw [chopString, if_pos (.inr h)]

theorem chopString_of_lt {field : List UInt8} (h : field.length < MAX_PARAM_SIZE) :
    chopString field fields = (chop field, fields) := by
  cases fields with
  | nil => rfl
  | cons next fields => rw [chopString, if_pos (.inl h)]

theorem forall₂_empty_refl (fields : List (List UInt8)) : List.Forall₂ (fun f g => f = [] → g = []) fields fields := by
  induction fields with
  | nil => exact .nil
  | cons field fields ih => exact .cons (fun h => h) ih

/-- Taking the newline away fills no field. -/
theorem chopString_empty (field : List UInt8) (fields : List (List UInt8)) :
    List.Forall₂ (fun f g => f = [] → g = []) fields (chopString field fields).2 := by
  induction fields generalizing field with
  | nil => exact .nil
  | cons next fields ih =>
    rw [chopString]
    split
    · exact forall₂_empty_refl _
    · rename_i hgoes
      exact .cons (fun h => absurd (.inr h) hgoes) (ih next)

theorem chopString_fst {field : List UInt8} (hle : field.length ≤ MAX_PARAM_SIZE)
    (h : field.length = MAX_PARAM_SIZE → field.getLast? = some 10 → fields.headD [] = []) :
    (chopString field fields).1 = chop field := by
  cases fields with
  | nil => rfl
  | cons next fields =>
    rw [chopString]
    split
    · rfl
    · rename_i hgoes
      obtain ⟨hfull, hnext⟩ := not_or.mp hgoes
      have hlast : ¬ field.getLast? = some 10 := fun he => hnext (h (Nat.le_antisymm hle (Nat.le_of_not_lt hfull)) he)
      unfold chop
      rw [if_neg hlast]

theorem Clear.mono {fields' : List (List UInt8)} (h : Clear theChar params fields)
    (he : List.Forall₂ (fun f g => f = [] → g = []) fields fields') : Clear theChar params fields' := by
  induction params generalizing fields fields' with
  | nil =>
    induction he with
    | nil => exact h
    | cons hfg _ ih =>
      obtain ⟨hf, hrest⟩ := List.forall_mem_cons.mp h
      exact List.forall_mem_cons.mpr ⟨hfg hf, ih hrest⟩
  | cons param params ih =>
    cases he with
    | nil => exact h
    | cons hfg hrest =>
      refine ⟨fun hl hn => ?_, ih h.2 hrest⟩
      have hhead := h.1 hl hn
      cases hrest with
      | nil => rfl
      | cons hnext _ => exact hnext hhead

/-- Where nothing is left over, the parameters are written as into an empty record. -/
theorem cliParseParameters_of_clear (h : Clear theChar params fields) :
    cliParseParameters theChar fields params = cliParseParameters theChar (List.replicate fields.length []) params := by
  induction params generalizing fields with
  | nil =>
    have hempty : fields = List.replicate fields.length [] := List.eq_replicate_of_mem h
    rw [← hempty]
  | cons param params ih =>
    cases fields with
    | nil => rfl
    | cons field fields =>
      obtain ⟨hspill, hrest⟩ := h
      rw [List.tail_cons] at hspill hrest
      have hlen := length_chopString (paramField theChar param) fields
      have hclear := hrest.mono (chopString_empty (paramField theChar param) fields)
      have hnone : (List.replicate fields.length ([] : List UInt8)).headD [] = [] := by
        cases fields <;> rfl
      rw [List.length_cons, List.replicate_succ, cliParseParameters, cliParseParameters,
        chopString_fst (length_paramField_le param) hspill, chopString_of_empty _ hnone]
      dsimp only
      rw [ih hclear, hlen]

/-- Conversely, for parameters that do not fill their fields. -/
theorem clear_of_cliParseParameters (hs : ∀ param ∈ params, (paramField theChar param).length < MAX_PARAM_SIZE)
    (h : cliParseParameters theChar fields params = cliParseParameters theChar (List.replicate fields.length []) params) :
    Clear theChar params fields := by
  induction params generalizing fields with
  | nil =>
    intro field hf
    have hempty : fields = List.replicate fields.length [] := by
      cases fields with
      | nil => rfl
      | cons field fields => exact h
    rw [hempty] at hf
    exact List.eq_of_mem_replicate hf
  | cons param params ih =>
    obtain ⟨hshort, hs⟩ := List.forall_mem_cons.mp hs
    refine ⟨fun hfull => absurd hfull (Nat.ne_of_lt hshort), ?_⟩
    cases fields with
    | nil => exact ih hs rfl
    | cons field fields =>
      rw [List.length_cons, List.replicate_succ, cliParseParameters, cliParseParameters, chopString_of_lt hshort,
        chopString_of_lt hshort] at h
      exact ih hs (List.cons.inj h).2

end Fields

section Runs
variable (theChar : UInt8) (decodedPlayerId : List UInt8) (parse : MclientCmd → MclientCmd)

theorem param_cliResetCmd (r : MclientCmd) : cliResetCmd.param = List.replicate r.param.length [] := by
  rw [r.param_length]
  rfl

/-- A line that finds nothing left over is decoded as with a record of its own, and whether the decoder crashes
does not depend on the record. -/
theorem decodeLine_handed (r : MclientCmd) (line : List UInt8) :
    (decodeLine theChar decodedPlayerId parse r line).crashed =
        (decodeLine theChar decodedPlayerId parse cliResetCmd line).crashed ∧
      (decodeLine theChar decodedPlayerId parse r line).handed.length =
        (decodeLine theChar decodedPlayerId parse cliResetCmd line).handed.length ∧
      (LineClear theChar decodedPlayerId r line → (decodeLine theChar decodedPlayerId parse r line).handed =
        (decodeLine theChar decodedPlayerId parse cliResetCmd line).handed) ∧
      (Short theChar line → (decodeLine theChar decodedPlayerId parse r line).handed =
        (decodeLine theChar decodedPlayerId parse cliResetCmd line).handed → LineClear theChar decodedPlayerId r line) := by
  unfold decodeLine LineClear Short
  cases htokens : tokens 32 line with
  | nil => exact ⟨rfl, rfl, fun _ => rfl, fun _ _ => trivial⟩
  | cons word words =>
    dsimp only
    by_cases hid : (cliDecodeString theChar word).isPrefixOf decodedPlayerId = true
    · rw [if_pos hid, if_pos hid]
      cases words with
      | nil => exact ⟨rfl, rfl, fun _ => rfl, fun _ _ => trivial⟩
      | cons cmd params =>
        dsimp only
        refine ⟨rfl, rfl, fun hclear => ?_, fun hshort hsame _ => ?_⟩
        · have hparam := cliParseParameters_of_clear (hclear hid)
          rw [← param_cliResetCmd r] at hparam
          simp only [hparam]
        · have hparam := congrArg MclientCmd.param (List.head_eq_of_cons_eq hsame)
          dsimp only at hparam
          rw [param_cliResetCmd r] at hparam
          exact clear_of_cliParseParameters hshort hparam
    · rw [if_neg hid, if_neg hid]
      refine ⟨rfl, rfl, fun _ => rfl, fun _ _ => ?_⟩
      cases words with
      | nil => trivial
      | cons cmd params => exact fun hown => absurd hown hid

/-- The lines of a receive: the same number is handed on whatever the record holds, and the same records exactly
when nothing is left over. -/
theorem decodeLines_handed (r : MclientCmd) (lines : List (List UInt8)) :
    (decodeLines theChar decodedPlayerId parse r lines).crashed = (decodeAlone theChar decodedPlayerId parse lines).2 ∧
      (decodeLines theChar decodedPlayerId parse r lines).handed.length =
        (decodeAlone theChar decodedPlayerId parse lines).1.length ∧
      (Kept theChar decodedPlayerId parse r lines → (decodeLines theChar decodedPlayerId parse r lines).handed =
        (decodeAlone theChar decodedPlayerId parse lines).1) ∧
      ((∀ line ∈ lines, Short theChar line) → (decodeLines theChar decodedPlayerId parse r lines).handed =
        (decodeAlone theChar decodedPlayerId parse lines).1 → Kept theChar decodedPlayerId parse r lines) := by
  induction lines generalizing r with
  | nil => exact ⟨rfl, rfl, fun _ => rfl, fun _ _ => trivial⟩
  | cons line lines ih =>
    obtain ⟨hcrash, hlength, hclear, hsame⟩ := decodeLine_handed theChar decodedPlayerId parse r line
    rw [decodeLines, decodeAlone]
    dsimp only
    by_cases hc : (decodeLine theChar decodedPlayerId parse r line).crashed = true
    · rw [if_pos hc, if_pos (hcrash ▸ hc)]
      refine ⟨hc, hlength, fun hk => hclear hk.1, fun hs he => ⟨hsame (hs line List.mem_cons_self) he, fun hno => ?_⟩⟩
      rw [hc] at hno
      exact absurd hno (by decide)
    · rw [if_neg hc, if_neg (hcrash ▸ hc)]
      obtain ⟨hcrash', hlength', hkept', hsame'⟩ := ih (decodeLine theChar decodedPlayerId parse r line).response
      refine ⟨hcrash', ?_, fun hk => ?_, fun hs he => ?_⟩
      · rw [List.length_append, List.length_append, hlength, hlength']
      · rw [hclear hk.1, hkept' (hk.2 (Bool.eq_false_iff.mpr hc))]
      · obtain ⟨hhead, htail⟩ := List.append_inj he hlength
        obtain ⟨hshort, hshorts⟩ := List.forall_mem_cons.mp hs
        exact ⟨hsame hshort hhead, fun _ => hsame' hshorts htail⟩

theorem decodeAlone_append (as bs : List (List UInt8)) : decodeAlone theChar decodedPlayerId parse (as ++ bs) =
    if (decodeAlone theChar decodedPlayerId parse as).2 then decodeAlone theChar decodedPlayerId parse as
    else ((decodeAlone theChar decodedPlayerId parse as).1 ++ (decodeAlone theChar decodedPlayerId parse bs).1,
      (decodeAlone theChar decodedPlayerId parse bs).2) := by
  induction as with
  | nil => rfl
  | cons a as ih =>
    rw [List.cons_append, decodeAlone, decodeAlone]
    by_cases hc : (decodeLine theChar decodedPlayerId parse cliResetCmd a).crashed = true
    · rw [if_pos hc, if_pos hc]
      rfl
    · rw [if_neg hc, if_neg hc, ih]
      split
      · rfl
      · dsimp only
        rw [List.append_assoc]

theorem takeWhile_of_no_zero {buf : List UInt8} (h : 0 ∉ buf) : buf.takeWhile (· ≠ 0) = buf := by
  refine List.takeWhile_eq_self_iff.mpr fun b hb => ?_
  rw [decide_eq_true_eq]
  rintro rfl
  exact h hb

/-- The receives, each without zeros, against the lines in them. -/
theorem cliReadData_handed {pieces : List (List UInt8)} (hz : ∀ piece ∈ pieces, 0 ∉ piece) :
    (AllKept theChar decodedPlayerId parse pieces → cliReadData theChar decodedPlayerId parse pieces =
        decodeAlone theChar decodedPlayerId parse (pieces.flatMap (tokens 10))) ∧
      ((∀ line ∈ pieces.flatMap (tokens 10), Short theChar line) →
        (cliReadData theChar decodedPlayerId parse pieces).1 =
          (decodeAlone theChar decodedPlayerId parse (pieces.flatMap (tokens 10))).1 →
        AllKept theChar decodedPlayerId parse pieces) := by
  induction pieces with
  | nil => exact ⟨fun _ => rfl, fun _ _ => trivial⟩
  | cons piece pieces ih =>
    obtain ⟨hpiece, hpieces⟩ := List.forall_mem_cons.mp hz
    obtain ⟨hkept, hsame⟩ := ih hpieces
    have htext := takeWhile_of_no_zero hpiece
    obtain ⟨hcrash, hlength, hkept', hsame'⟩ :=
      decodeLines_handed theChar decodedPlayerId parse cliResetCmd (tokens 10 piece)
    rw [cliReadData, AllKept, List.flatMap_cons]
    by_cases hnil : piece = []
    · have hlines : tokens 10 piece = [] := by rw [hnil]; rfl
      rw [if_pos hnil, hlines]
      exact ⟨fun h => hkept (h.2 rfl), fun hs he => ⟨trivial, fun _ => hsame hs he⟩⟩
    · rw [if_neg hnil, decodeAlone_append, cliDecodeResponse, htext]
      dsimp only
      by_cases hc : (decodeLines theChar decodedPlayerId parse cliResetCmd (tokens 10 piece)).crashed = true
      · rw [if_pos hc, if_pos (hcrash ▸ hc)]
        refine ⟨fun h => ?_, fun hs he => ⟨?_, fun hno => absurd (hc.symm.trans hno) (by decide)⟩⟩
        · rw [hkept' h.1, ← hc, hcrash]
        · exact hsame' (fun line hl => hs line (List.mem_append_left _ hl)) he
      · rw [if_neg hc, if_neg (hcrash ▸ hc)]
        refine ⟨fun h => ?_, fun hs he => ?_⟩
        · rw [hkept' h.1, hkept (h.2 (Bool.eq_false_iff.mpr hc))]
        · obtain ⟨hhead, htail⟩ := List.append_inj he hlength
          exact ⟨hsame' (fun line hl => hs line (List.mem_append_left _ hl)) hhead,
            fun _ => hsame (fun line hl => hs line (List.mem_append_right _ hl)) htail⟩

/-- Lines that arrive one by one. -/
theorem cliReadData_alone {lines : List (List UInt8)} (ht : ∀ line ∈ lines, 10 ∉ line ∧ 0 ∉ line) :
    cliReadData theChar decodedPlayerId parse (lines.map (· ++ [10])) =
      decodeAlone theChar decodedPlayerId parse (lines.filter (· ≠ [])) := by
  induction lines with
  | nil => rfl
  | cons line lines ih =>
    obtain ⟨⟨hten, hzero⟩, ht⟩ := List.forall_mem_cons.mp ht
    have hne : line ++ [10] ≠ [] := by simp
    have hbuf : (0 : UInt8) ∉ line ++ [10] := by
      rw [List.mem_append, List.mem_singleton]
      exact not_or.mpr ⟨hzero, by decide⟩
    rw [List.map_cons, cliReadData, if_neg hne, cliDecodeResponse, takeWhile_of_no_zero hbuf, tokens_terminated hten]
    by_cases hnil : line = []
    · rw [if_pos hnil, List.filter_cons_of_neg (by simp [hnil]), ih ht]
      rfl
    · rw [if_neg hnil, List.filter_cons_of_pos (by simp [hnil]), decodeAlone, ih ht, decodeLines]
      dsimp only
      by_cases hc : (decodeLine theChar decodedPlayerId parse cliResetCmd line).crashed = true
      · simp only [hc, if_true]
      · simp only [hc, decodeLines, List.append_nil, Bool.false_eq_true, if_false]

end Runs

/-- Lines cut only at their ends are decoded as if each had arrived alone when nothing is left over in the record,
and, unless a parameter fills its field, only then. -/
theorem decoded_alike (theChar : UInt8) (decodedPlayerId : List UInt8) (parse : MclientCmd → MclientCmd)
    {lines pieces : List (List UInt8)} (hcut : CutAtLines lines pieces) :
    (AllKept theChar decodedPlayerId parse pieces → (cliReadData theChar decodedPlayerId parse pieces).1 =
        (cliReadData theChar decodedPlayerId parse (lines.map (· ++ [10]))).1) ∧
      ((∀ line ∈ lines, Short theChar line) → (cliReadData theChar decodedPlayerId parse pieces).1 =
        (cliReadData theChar decodedPlayerId parse (lines.map (· ++ [10]))).1 →
        AllKept theChar decodedPlayerId parse pieces) := by
  obtain ⟨htext, hstream, hwhole⟩ := hcut
  have hz : ∀ piece ∈ pieces, 0 ∉ piece := by
    intro piece hp hzero
    have hmem : 0 ∈ lines.flatMap (· ++ [10]) := hstream ▸ List.mem_flatten.mpr ⟨piece, hp, hzero⟩
    obtain ⟨line, hl, hline⟩ := List.mem_flatMap.mp hmem
    obtain h | h := List.mem_append.mp hline
    · exact (htext line hl).2 h
    · simp at h
  obtain ⟨hkept, hsame⟩ := cliReadData_handed theChar decodedPlayerId parse hz
  rw [cliReadData_alone theChar decodedPlayerId parse htext, ← hwhole]
  refine ⟨fun h => by rw [hkept h], fun hs => hsame fun line hl => ?_⟩
  rw [hwhole] at hl
  exact hs line (List.mem_of_mem_filter hl)

/-- `00:0d:fe:00:00:01`, and the same encoded. -/
def somePlayerId : List UInt8 :=
  [48, 48, 58, 48, 100, 58, 102, 101, 58, 48, 48, 58, 48, 48, 58, 48, 49]

def someEncodedId : List UInt8 :=
  [48, 48, 37, 51, 65, 48, 100, 37, 51, 65, 102, 101, 37, 51, 65, 48, 48, 37, 51, 65, 48, 48, 37, 51, 65, 48, 49]

/-- `mode play` and `mode stop` in one receive. -/
theorem decoded_alike_two_lines :
    (cliReadData 0 somePlayerId id [someEncodedId ++ [32, 109, 111, 100, 101, 32, 112, 108, 97, 121] ++ 10 ::
        (someEncodedId ++ [32, 109, 111, 100, 101, 32, 115, 116, 111, 112] ++ [10])]).1 =
      (cliReadData 0 somePlayerId id ([someEncodedId ++ [32, 109, 111, 100, 101, 32, 112, 108, 97, 121],
        someEncodedId ++ [32, 109, 111, 100, 101, 32, 115, 116, 111, 112]].map (· ++ [10]))).1 :=
  have hcut : CutAtLines [someEncodedId ++ [32, 109, 111, 100, 101, 32, 112, 108, 97, 121],
      someEncodedId ++ [32, 109, 111, 100, 101, 32, 115, 116, 111, 112]]
      [someEncodedId ++ [32, 109, 111, 100, 101, 32, 112, 108, 97, 121] ++ 10 ::
        (someEncodedId ++ [32, 109, 111, 100, 101, 32, 115, 116, 111, 112] ++ [10])] :=
    ⟨by decide, by decide, by decide⟩
  (decoded_alike 0 somePlayerId id hcut).1
    ((decoded_alike 0 somePlayerId id hcut).2 (by unfold Short; decide) (by decide))

/-- `mode play`, torn in the last word. -/
theorem torn_line : (cliReadData 0 somePlayerId id [someEncodedId ++ [32, 109, 111, 100, 101, 32, 112, 108], [97, 121] ++ [10]]).1 ≠
    (cliReadData 0 somePlayerId id ([someEncodedId ++ [32, 109, 111, 100, 101, 32, 112, 108, 97, 121]].map (· ++ [10]))).1 := by
  decide

end Mvpmc.Mclient
