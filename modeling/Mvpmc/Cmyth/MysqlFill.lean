import Mvpmc.Cmyth.MysqlQuery

/-! What the calls on a query build from its template. -/
namespace Mvpmc.Cmyth.Mysql
open Mvpmc.Lib

/-- How the buffer grows, in numbers without bound: its size and what is used of it, when room for the first
component of a piece is asked for, and the second one is written. -/
def grow (sourceLen : Nat) (room piece : Nat × Nat) : Nat × Nat :=
  (if room.1 ≤ room.2 + piece.1 then room.1 + max sourceLen piece.1 else room.1, room.2 + piece.2)

/-- A text that is written as a whole. -/
def piece (out : List UInt8) : Nat × Nat := (out.length, out.length)

def growAll (sourceLen : Nat) (room : Nat × Nat) (pieces : List (Nat × Nat)) : Nat × Nat :=
  pieces.foldl (grow sourceLen) room

/-- The environment of a query works: memory is there for every size that an `int` can ask for, there is a
connection, and a string of `k` bytes is escaped into at most `2 * k + 1`. -/
structure Server.Works (env : Server) : Prop where
  alloc : ∀ size : Int, 0 < size → size < 2 ^ 31 → env.alloc size = true
  connection : env.connection = true
  escape : ∀ str, (env.escape str).length + 1 ≤ 2 * str.length + 1

section
variable {sourceLen size used reserve taken : Nat}

theorem le_grow : size ≤ (grow sourceLen (size, used) (reserve, taken)).1 := by
  unfold grow
  dsimp only
  split <;> omega

/-- What was asked for fits, with one byte to spare. -/
theorem lt_grow (h : used < size) : used + reserve < (grow sourceLen (size, used) (reserve, taken)).1 := by
  unfold grow
  dsimp only
  split <;> omega

theorem growAll_append (room : Nat × Nat) (ps qs : List (Nat × Nat)) :
    growAll sourceLen room (ps ++ qs) = growAll sourceLen (growAll sourceLen room ps) qs :=
  List.foldl_append

/-- The buffer does not shrink. -/
theorem le_growAll (room : Nat × Nat) (pieces : List (Nat × Nat)) : room.1 ≤ (growAll sourceLen room pieces).1 := by
  induction pieces generalizing room with
  | nil => exact le_refl _
  | cons piece pieces ih => exact le_grow.trans (ih (grow sourceLen room piece))

end

theorem cint_of_lt {n : Nat} (h : n < 2 ^ 31) : cint n = n := by
  unfold cint
  rw [Int.bmod_eq_of_le] <;> omega

attribute [local irreducible] cint

/-- The text lies in the buffer with its terminator, and the buffer is as large as at the start. -/
structure Fits (source text : List UInt8) (size : Nat) : Prop where
  used : text.length < size
  start : 2 * source.length ≤ size

namespace Query
variable {abi : Abi} {env : Server} {source rest text : List UInt8} {size : Nat}

theorem checkLen_eq (hw : env.Works) (hf : Fits source text size) {reserve : Nat} (taken : Nat)
    (hroom : (grow source.length (size, text.length) (reserve, taken)).1 < 2 ^ 31) :
    checkLen env reserve ⟨source, rest, some text, size⟩ =
      (⟨source, rest, some text, (grow source.length (size, text.length) (reserve, taken)).1⟩, 0) := by
  have hused := hf.used
  have hstart := hf.start
  have hfit : text.length + reserve < (grow source.length (size, text.length) (reserve, taken)).1 := lt_grow hf.used
  have hle : size ≤ (grow source.length (size, text.length) (reserve, taken)).1 := le_grow
  have hsum : cint ((reserve : Int) + text.length) = ((text.length + reserve : Nat) : Int) := by
    rw [add_comm, ← Nat.cast_add]
    exact cint_of_lt (by omega)
  have hlen : cint source.length = source.length := cint_of_lt (by omega)
  unfold checkLen bufUsed sourceLen
  dsimp only [Option.getD_some]
  simp only [hsum, hlen]
  unfold grow at hroom ⊢
  dsimp only at hroom ⊢
  by_cases hg : size ≤ text.length + reserve
  · have hmax : (size : Int) + (if (source.length : Int) > reserve then (source.length : Int) else reserve) =
        ((size + max source.length reserve : Nat) : Int) := by
      split <;> omega
    rw [if_pos hg] at hroom
    rw [if_pos (by omega), if_pos hg, hmax, cint_of_lt hroom, if_pos (hw.alloc _ (by omega) (by exact_mod_cast hroom))]
  · rw [if_neg (by omega), if_neg hg]

theorem store_eq {data : List UInt8} (h : (text ++ data).length < size) :
    store data ⟨source, rest, some text, size⟩ = some ⟨source, rest, some (text ++ data), size⟩ := by
  have h : ((text ++ data).length : Int) < size := by exact_mod_cast h
  unfold store
  exact if_pos h

end Query

/-- A part of a call on a query that writes `out` behind the text, for which it asks for room piece by piece. -/
structure Appends (f : Query → Option (Query × Int)) (pieces : List (Nat × Nat)) (out : List UInt8) : Prop where
  run : ∀ {source text : List UInt8} {size : Nat}, Fits source text size →
    (growAll source.length (size, text.length) pieces).1 < 2 ^ 31 →
      growAll source.length (size, text.length) pieces =
          ((growAll source.length (size, text.length) pieces).1, (text ++ out).length) ∧
        Fits source (text ++ out) (growAll source.length (size, text.length) pieces).1 ∧
        ∀ rest, ∃ ret, 0 ≤ ret ∧ f ⟨source, rest, some text, size⟩ = some
          (⟨source, rest, some (text ++ out), (growAll source.length (size, text.length) pieces).1⟩, ret)

namespace Query
variable {abi : Abi} {env : Server} {source rest text : List UInt8} {size : Nat}

/-- The parts of a call one after another. -/
theorem andThen_appends {f g : Query → Option (Query × Int)} {ps qs : List (Nat × Nat)} {out out' : List UInt8}
    (hf : Appends f ps out) (hg : Appends g qs out') : Appends (andThen f g) (ps ++ qs) (out ++ out') := by
  constructor
  intro source text size hfit hroom
  rw [growAll_append] at hroom ⊢
  obtain ⟨hgrow, hfit', hrun⟩ := hf.run hfit ((le_growAll _ _).trans_lt hroom)
  rw [hgrow] at hroom ⊢
  obtain ⟨hgrow', hfit'', hrun'⟩ := hg.run hfit' hroom
  rw [← List.append_assoc]
  refine ⟨hgrow', hfit'', fun rest => ?_⟩
  obtain ⟨ret, hret, hrun⟩ := hrun rest
  obtain ⟨ret', hret', hrun'⟩ := hrun' rest
  refine ⟨ret', hret', ?_⟩
  unfold andThen
  rw [hrun]
  dsimp only
  rw [if_neg (not_lt.mpr hret), hrun']

theorem bufferAdd_appends (hw : env.Works) (data : List UInt8) :
    Appends (bufferAdd env data) [piece data] data := by
  constructor
  intro source text size hfit hroom
  change (grow source.length (size, text.length) (data.length, data.length)).1 < 2 ^ 31 at hroom
  have hlt : text.length + data.length < (grow source.length (size, text.length) (data.length, data.length)).1 :=
    lt_grow hfit.used
  have hlen : cint data.length = data.length := cint_of_lt (by omega)
  have hstore : (text ++ data).length < (grow source.length (size, text.length) (data.length, data.length)).1 := by
    rw [List.length_append]
    exact hlt
  refine ⟨?_, ⟨hstore, hfit.start.trans le_grow⟩, fun rest => ⟨data.length, Int.natCast_nonneg _, ?_⟩⟩
  · rw [List.length_append]
    rfl
  · unfold bufferAdd
    dsimp only
    rw [hlen, checkLen_eq hw hfit data.length hroom]
    dsimp only
    rw [if_neg (by decide), if_neg (by omega), Int.toNat_natCast, List.take_length, store_eq hstore]
    rfl

theorem bufferAddEscapeStr_appends (hw : env.Works) (str : List UInt8) :
    Appends (bufferAddEscapeStr env str) [(2 * str.length + 1, (env.escape str).length)] (env.escape str) := by
  constructor
  intro source text size hfit hroom
  change (grow source.length (size, text.length) (2 * str.length + 1, (env.escape str).length)).1 < 2 ^ 31 at hroom
  have hlt : text.length + (2 * str.length + 1) <
      (grow source.length (size, text.length) (2 * str.length + 1, (env.escape str).length)).1 := lt_grow hfit.used
  have hesc := hw.escape str
  have hlen : cint str.length = str.length := cint_of_lt (by omega)
  have hreserve : cint ((str.length : Int) * 2 + 1) = ((2 * str.length + 1 : Nat) : Int) := by
    have hnat : (str.length : Int) * 2 + 1 = ((2 * str.length + 1 : Nat) : Int) := by omega
    rw [hnat]
    exact cint_of_lt (by omega)
  have hstore : (text ++ env.escape str).length <
      (grow source.length (size, text.length) (2 * str.length + 1, (env.escape str).length)).1 := by
    rw [List.length_append]
    omega
  refine ⟨?_, ⟨hstore, hfit.start.trans le_grow⟩, fun rest => ⟨(env.escape str).length, Int.natCast_nonneg _, ?_⟩⟩
  · rw [List.length_append]
    rfl
  · unfold bufferAddEscapeStr
    dsimp only
    rw [hlen, hreserve, checkLen_eq hw hfit _ hroom]
    dsimp only
    rw [if_neg (by decide), if_neg (by simp [hw.connection]), if_neg (by omega), Int.toNat_natCast, List.take_length,
      store_eq hstore]
    rfl

end Query

/-- The number of characters of a printed number: the buffers of `sprintf` are large enough for every `long`. -/
theorem text_length_le {abi : Abi} {n : Nat} (h : n < 2 ^ abi.longBits) :
    (Decimal.text n).length ≤ abi.sizeofLong * 3 := by
  cases abi with
  | ilp32 => exact Decimal.length_text_le (by decide) (h.trans (by decide))
  | lp64 => exact Decimal.length_text_le (by decide) (h.trans (by decide))

theorem longText_length_le {abi : Abi} (v : BitVec abi.longBits) :
    (longText v.toInt).length ≤ abi.sizeofLong * 3 + 1 := by
  have habs : v.toInt.natAbs < 2 ^ abi.longBits := by
    have hlt := v.isLt
    rw [BitVec.toInt_eq_toNat_cond]
    split <;> omega
  have hle := text_length_le habs
  rcases longText_cases v.toInt with ⟨-, he⟩ | ⟨-, he⟩ <;> rw [he]
  · exact Nat.succ_le_succ hle
  · exact hle.trans (Nat.le_succ _)

namespace Param
variable {abi : Abi}

/-- What stands for a parameter in the query. -/
def rendering (env : Server) : Param abi → List UInt8
  | long v => longText v.toInt
  | ulong v => Decimal.text v.toNat
  | int v => longText v.toInt
  | uint v => Decimal.text v.toNat
  | unixtime v => ascii "FROM_UNIXTIME(" ++ longText v.toInt ++ ascii ")"
  | str none => ascii "NULL"
  | str (some s) => ascii "'" ++ env.escape s ++ ascii "'"

/-- What the code writes for it: the `int` that stands for an unsigned number is extended with its sign. -/
def printed (env : Server) : Param abi → List UInt8
  | uint v => Decimal.text (v.signExtend abi.longBits).toNat
  | p => p.rendering env

/-- An unsigned number survives the way through `int`. -/
def Exact : Param abi → Prop
  | uint v => abi = .ilp32 ∨ v.toNat < 2 ^ 31
  | _ => True

/-- The room that is asked for behind the text in front of the mark. -/
def pieces (env : Server) : Param abi → List (Nat × Nat)
  | unixtime v => [piece (ascii "FROM_UNIXTIME("), piece (longText v.toInt), piece (ascii ")")]
  | str (some s) => [piece (ascii "'"), (2 * s.length + 1, (env.escape s).length), piece (ascii "'")]
  | p => [piece (p.printed env)]

end Param

namespace Query
variable {abi : Abi} {env : Server}

theorem bufferAddLong_appends (hw : env.Works) (v : BitVec abi.longBits) :
    Appends (bufferAddLong env v) [piece (longText v.toInt)] (longText v.toInt) := by
  have hfits : sprintf (CMYTH_LONG_STRLEN abi) (longText v.toInt) = some (longText v.toInt) :=
    if_pos (Nat.lt_succ_of_le (longText_length_le v))
  have he : bufferAddLong env v = bufferAdd env (longText v.toInt) := by
    funext q
    unfold bufferAddLong
    rw [hfits]
    rfl
  rw [he]
  exact bufferAdd_appends hw _

theorem bufferAddUlong_appends (hw : env.Works) (v : BitVec abi.longBits) :
    Appends (bufferAddUlong env v) [piece (Decimal.text v.toNat)] (Decimal.text v.toNat) := by
  have hfits : sprintf (CMYTH_ULONG_STRLEN abi) (Decimal.text v.toNat) = some (Decimal.text v.toNat) :=
    if_pos (Nat.lt_succ_of_le (text_length_le v.isLt))
  have he : bufferAddUlong env v = bufferAdd env (Decimal.text v.toNat) := by
    funext q
    unfold bufferAddUlong
    rw [hfits]
    rfl
  rw [he]
  exact bufferAdd_appends hw _

theorem toInt_signExtend (v : BitVec 32) : (v.signExtend abi.longBits).toInt = v.toInt := by
  cases abi with
  | ilp32 => exact BitVec.toInt_signExtend_of_le (by decide)
  | lp64 => exact BitVec.toInt_signExtend_of_le (by decide)

/-- Every parameter goes behind the text in front of its mark. -/
theorem param_split (hw : env.Works) (p : Param abi) : ∃ body, param env p = andThen (beginNextParam env) body ∧
    Appends body (p.pieces env) (p.printed env) := by
  cases p with
  | long v => exact ⟨_, rfl, bufferAddLong_appends hw v⟩
  | ulong v => exact ⟨_, rfl, bufferAddUlong_appends hw v⟩
  | int v =>
    have h := bufferAddLong_appends hw (v.signExtend abi.longBits)
    rw [toInt_signExtend] at h
    exact ⟨_, rfl, h⟩
  | uint v => exact ⟨_, rfl, bufferAddUlong_appends hw _⟩
  | unixtime v =>
    have h := andThen_appends (bufferAdd_appends hw (ascii "FROM_UNIXTIME("))
      (andThen_appends (bufferAddLong_appends hw v) (bufferAdd_appends hw (ascii ")")))
    rw [← List.append_assoc] at h
    exact ⟨_, rfl, h⟩
  | str s =>
    cases s with
    | none => exact ⟨_, rfl, bufferAdd_appends hw _⟩
    | some s =>
      have h := andThen_appends (bufferAdd_appends hw (ascii "'"))
        (andThen_appends (bufferAddEscapeStr_appends hw s) (bufferAdd_appends hw (ascii "'")))
      rw [← List.append_assoc] at h
      exact ⟨_, rfl, h⟩

end Query

section
variable {abi : Abi}

/-- The parameters among some calls. -/
def params (cs : List (Call abi)) : List (Param abi) :=
  cs.filterMap fun c => match c with
    | .param p => some p
    | .string => none

/-- The room that is asked for while the rest of a template is filled; what follows the last mark is copied
when the text is asked for. -/
def templatePieces (env : Server) : List UInt8 → List (Param abi) → List (Nat × Nat)
  | rest, [] => if mark ∈ rest then [] else [piece rest]
  | rest, p :: ps =>
    match Template.cut mark rest with
    | none => [piece rest]
    | some r => piece r.1 :: (p.pieces env ++ templatePieces env r.2 ps)

/-- No `int` overflows: the buffer that the template with these parameters needs stays below 2 GiB. -/
def HasRoom (env : Server) (template : List UInt8) (ps : List (Param abi)) : Prop :=
  (growAll template.length (2 * template.length, 0) (templatePieces env template ps)).1 < 2 ^ 31

instance (env : Server) (template : List UInt8) (ps : List (Param abi)) : Decidable (HasRoom env template ps) :=
  inferInstanceAs (Decidable (_ < _))

/-- The answer to a call after the parameters `past`, when each is written as `render` says. -/
def expected (render : Param abi → List UInt8) (template : List UInt8) (past : List (Param abi)) : Call abi → Answer
  | .param _ => .param (decide (past.length < template.count mark))
  | .string => .string (if template.count mark ≤ past.length then
      some (Template.fill mark template ((past.take (template.count mark)).map render)) else none)

/-- The text built so far, followed by the filled rest of the template, is the filled template. -/
structure Built (env : Server) (template rest text : List UInt8) (size : Nat) (past future : List (Param abi)) :
    Prop where
  fits : Fits template text size
  count : rest.count mark + min past.length (template.count mark) = template.count mark
  fill : ∀ entries, Template.fill mark template ((past.take (template.count mark)).map (Param.printed env) ++ entries) =
    text ++ Template.fill mark rest entries
  room : (growAll template.length (size, text.length) (templatePieces env rest future)).1 < 2 ^ 31

theorem templatePieces_full {env : Server} {rest : List UInt8} (h : mark ∉ rest) (ps : List (Param abi)) :
    templatePieces env rest ps = [piece rest] := by
  cases ps with
  | nil => exact if_neg h
  | cons p ps =>
    unfold templatePieces
    rw [Template.cut_none.mpr h]

namespace Built
variable {env : Server} {template rest text : List UInt8} {size : Nat} {past future : List (Param abi)} {p : Param abi}

theorem mark_mem (hb : Built env template rest text size past future) :
    mark ∈ rest ↔ past.length < template.count mark := by
  have h := hb.count
  rw [← List.count_pos_iff]
  omega

/-- A parameter takes the place of the next mark. -/
theorem param (hw : env.Works) (hb : Built env template rest text size past (p :: future))
    (hlt : past.length < template.count mark) : ∃ rest' text' size' ret, 0 ≤ ret ∧
      Query.param env p ⟨template, rest, some text, size⟩ = some (⟨template, rest', some text', (size' : Nat)⟩, ret) ∧
      Built env template rest' text' size' (past ++ [p]) future := by
  obtain ⟨⟨front, rest'⟩, hcut⟩ : ∃ r, Template.cut mark rest = some r := by
    cases hcut : Template.cut mark rest with
    | none => exact absurd (hb.mark_mem.mpr hlt) (Template.cut_none.mp hcut)
    | some r => exact ⟨r, rfl⟩
  obtain ⟨hrest, hfront⟩ := Template.cut_some hcut
  have hroom := hb.room
  unfold templatePieces at hroom
  rw [hcut] at hroom
  change (growAll template.length (size, text.length)
    ([piece front] ++ (p.pieces env ++ templatePieces env rest' future))).1 < 2 ^ 31 at hroom
  rw [growAll_append] at hroom
  obtain ⟨hgrow, hfit, hrun⟩ := (Query.bufferAdd_appends hw front).run hb.fits ((le_growAll _ _).trans_lt hroom)
  rw [hgrow, growAll_append] at hroom
  obtain ⟨body, hsplit, hbody⟩ := Query.param_split hw p
  obtain ⟨hgrow', hfit', hrun'⟩ := hbody.run hfit ((le_growAll _ _).trans_lt hroom)
  obtain ⟨ret, hret, hrun⟩ := hrun rest
  obtain ⟨ret', hret', hrun'⟩ := hrun' rest'
  refine ⟨rest', text ++ front ++ p.printed env, _, ret', hret', ?_, hfit', ?_, fun entries => ?_, ?_⟩
  · have hbegin : Query.beginNextParam env ⟨template, rest, some text, size⟩ = some (⟨template, rest', some (text ++ front),
        (growAll template.length (size, text.length) [piece front]).1⟩, ret) := by
      unfold Query.beginNextParam
      simp only [hcut, hrun, Option.map_some]
    rw [hsplit]
    unfold Query.andThen
    simp only [hbegin, if_neg (not_lt.mpr hret), hrun']
  · have hcount := hb.count
    rw [Template.count_cut hcut] at hcount
    rw [List.length_append, List.length_singleton]
    omega
  · have htake : (past ++ [p]).take (template.count mark) = past.take (template.count mark) ++ [p] := by
      rw [List.take_of_length_le (by rw [List.length_append]; exact hlt), List.take_of_length_le hlt.le]
    rw [htake, List.map_append, List.append_assoc, hb.fill, List.map_singleton, List.singleton_append, hrest,
      Template.fill_append hfront, Template.fill_cons_mark, List.append_assoc, List.append_assoc]
  · rw [hgrow'] at hroom
    exact hroom

/-- With all marks filled a further parameter is refused. -/
theorem param_full (hb : Built env template rest text size past (p :: future)) (hge : template.count mark ≤ past.length)
    (hw : env.Works) :
    Query.param env p ⟨template, rest, some text, size⟩ = some (⟨template, rest, some text, size⟩, -1) ∧
      Built env template rest text size (past ++ [p]) future := by
  have hnot : mark ∉ rest := fun hm => absurd (hb.mark_mem.mp hm) (by omega)
  obtain ⟨body, hsplit, -⟩ := Query.param_split hw p
  refine ⟨?_, hb.fits, ?_, fun entries => ?_, ?_⟩
  · rw [hsplit]
    unfold Query.andThen Query.beginNextParam
    simp only [Template.cut_none.mpr hnot]
    rfl
  · have hcount := hb.count
    rw [List.length_append, List.length_singleton]
    omega
  · rw [List.take_append_of_le_length hge]
    exact hb.fill entries
  · have hroom := hb.room
    rw [templatePieces_full hnot] at hroom ⊢
    exact hroom

/-- With marks left the text is not handed out. -/
theorem string_open (hb : Built env template rest text size past future) (hlt : past.length < template.count mark) :
    Query.string env ⟨template, rest, some text, size⟩ = some (⟨template, rest, some text, size⟩, none) := by
  unfold Query.string
  exact if_pos (hb.mark_mem.mpr hlt)

/-- With all marks filled the text is handed out, and the query stays ready for it. -/
theorem string_full (hb : Built env template rest text size past future) (hge : template.count mark ≤ past.length)
    (hw : env.Works) : ∃ text' size',
      Query.string env ⟨template, rest, some text, size⟩ =
        some (⟨template, [], some text', (size' : Nat)⟩, some (Template.fill mark template
          ((past.take (template.count mark)).map (Param.printed env)))) ∧
      Built env template [] text' size' past future := by
  have hnot : mark ∉ rest := fun hm => absurd (hb.mark_mem.mp hm) (by omega)
  have hroom := hb.room
  rw [templatePieces_full hnot] at hroom
  have hfilled := hb.fill []
  rw [List.append_nil, Template.fill_of_not_mem hnot] at hfilled
  obtain ⟨hgrow, hfit, hrun⟩ := (Query.bufferAdd_appends hw rest).run hb.fits hroom
  obtain ⟨ret, hret, hrun⟩ := hrun rest
  refine ⟨text ++ rest, _, ?_, hfit, ?_, fun entries => ?_, ?_⟩
  · have hadd : Query.bufferAddStr env rest ⟨template, rest, some text, size⟩ = some (⟨template, rest, some (text ++ rest),
        (growAll template.length (size, text.length) [piece rest]).1⟩, ret) := hrun
    unfold Query.string
    simp only [if_neg hnot, hadd, if_neg (not_lt.mpr hret), hfilled]
  · rw [List.count_nil]
    omega
  · have h := hb.fill entries
    rw [Template.fill_of_not_mem hnot] at h
    rw [h, Template.fill, List.append_nil]
  · -- nothing is left to copy, and there is room for nothing
    have hlast : growAll template.length
        ((growAll template.length (size, text.length) [piece rest]).1, (text ++ rest).length) [piece []] =
        ((growAll template.length (size, text.length) [piece rest]).1, (text ++ rest).length) := by
      have hused := hfit.used
      change grow template.length (_, (text ++ rest).length) (0, 0) = _
      unfold grow
      dsimp only
      rw [if_neg (by omega), Nat.add_zero]
    rw [templatePieces_full List.not_mem_nil, hlast]
    exact hroom

/-- Any call: its answer, and what it builds. -/
theorem call (hw : env.Works) {c : Call abi} {cs : List (Call abi)}
    (hb : Built env template rest text size past (params (c :: cs))) : ∃ rest' text' size',
      Query.call env ⟨template, rest, some text, size⟩ c = some (⟨template, rest', some text', (size' : Nat)⟩,
        expected (Param.printed env) template past c) ∧
      Built env template rest' text' size' (past ++ params [c]) (params cs) ∧
      (template.count mark ≤ past.length → ∀ p, c = .param p → rest' = rest ∧ text' = text ∧ size' = size) := by
  cases c with
  | param p =>
    by_cases hlt : past.length < template.count mark
    · obtain ⟨rest', text', size', ret, hret, hrun, hb'⟩ := hb.param hw hlt
      refine ⟨rest', text', size', ?_, hb', fun hge => absurd hlt (by omega)⟩
      unfold Query.call expected
      simp only [hrun, Option.map_some, hret, hlt]
    · obtain ⟨hrun, hb'⟩ := hb.param_full (not_lt.mp hlt) hw
      refine ⟨rest, text, size, ?_, hb', fun _ _ _ => ⟨rfl, rfl, rfl⟩⟩
      unfold Query.call expected
      simp only [hrun, Option.map_some, hlt]
      rfl
  | string =>
    have hpast : past ++ params [Call.string] = past := List.append_nil _
    rw [hpast]
    by_cases hlt : past.length < template.count mark
    · refine ⟨rest, text, size, ?_, hb, fun _ _ _ => ⟨rfl, rfl, rfl⟩⟩
      unfold Query.call expected
      simp only [hb.string_open hlt, Option.map_some, if_neg (not_le.mpr hlt)]
    · obtain ⟨text', size', hrun, hb'⟩ := hb.string_full (not_lt.mp hlt) hw
      refine ⟨[], text', size', ?_, hb', fun _ p hp => absurd hp (by simp)⟩
      unfold Query.call expected
      simp only [hrun, Option.map_some, if_pos (not_lt.mp hlt)]

/-- Any calls. -/
theorem calls (hw : env.Works) (cs later : List (Call abi))
    (hb : Built env template rest text size past (params (cs ++ later))) : ∃ rest' text' size',
      Query.calls env ⟨template, rest, some text, size⟩ cs = some ⟨template, rest', some text', (size' : Nat)⟩ ∧
      Built env template rest' text' size' (past ++ params cs) (params later) := by
  induction cs generalizing rest text size past with
  | nil => exact ⟨rest, text, size, rfl, (List.append_nil past).symm ▸ hb⟩
  | cons c cs ih =>
    obtain ⟨rest', text', size', hrun, hb', -⟩ := hb.call hw
    obtain ⟨rest'', text'', size'', hrun', hb''⟩ := ih hb'
    refine ⟨rest'', text'', size'', ?_, ?_⟩
    · unfold Query.calls
      rw [List.foldlM_cons, hrun]
      exact hrun'
    · rw [List.append_assoc] at hb''
      have hparams : params (c :: cs) = params [c] ++ params cs := List.filterMap_append (l := [c]) ..
      rw [hparams]
      exact hb''

end Built

/-- The template that was handed in, with an empty buffer. -/
theorem create_built {env : Server} (hw : env.Works) {template : List UInt8} (hne : template ≠ []) {ps : List (Param abi)}
    (hroom : HasRoom env template ps) :
    Query.create env template = some (some ⟨template, template, some [], ((2 * template.length : Nat) : Int)⟩) ∧
      Built env template template [] (2 * template.length) [] ps := by
  have hpos : 0 < template.length := List.length_pos_iff.mpr hne
  have hlt : 2 * template.length < 2 ^ 31 := (le_growAll _ _).trans_lt hroom
  have hlen : cint template.length = template.length := cint_of_lt (by omega)
  have hsize : cint ((template.length : Int) * 2) = ((2 * template.length : Nat) : Int) := by
    have hnat : (template.length : Int) * 2 = ((2 * template.length : Nat) : Int) := by omega
    rw [hnat]
    exact cint_of_lt hlt
  refine ⟨?_, ⟨by change 0 < _; omega, le_refl _⟩, ?_, fun entries => ?_, hroom⟩
  · unfold Query.create
    simp only [hlen, hsize]
    rw [if_pos (hw.alloc _ (by omega) (by exact_mod_cast hlt)), if_pos (by omega)]
  · rw [List.length_nil]
    omega
  · rw [List.take_nil, List.map_nil, List.nil_append, List.nil_append]

/-- The sign that is extended makes the number longer. -/
theorem Param.printed_cases (env : Server) (p : Param abi) : p.Exact ∧ p.printed env = p.rendering env ∨
    ¬ p.Exact ∧ (p.rendering env).length < (p.printed env).length := by
  cases p with
  | uint v =>
    have hlt := v.isLt
    have hmsb : v.msb = decide (2 ^ 31 ≤ v.toNat) := by
      rw [BitVec.msb_eq_decide]
    unfold Param.Exact Param.printed Param.rendering
    dsimp only
    cases abi with
    | ilp32 => exact .inl ⟨.inl rfl, by rw [show Abi.ilp32.longBits = 32 from rfl, BitVec.signExtend_eq]⟩
    | lp64 =>
      have hval : (v.signExtend Abi.lp64.longBits).toNat =
          v.toNat + if 2 ^ 31 ≤ v.toNat then 2 ^ 64 - 2 ^ 32 else 0 := by
        rw [BitVec.toNat_signExtend, BitVec.toNat_setWidth, hmsb]
        change v.toNat % 2 ^ 64 + _ = _
        rw [Nat.mod_eq_of_lt (by omega)]
        simp only [decide_eq_true_eq]
        rfl
      by_cases hbig : 2 ^ 31 ≤ v.toNat
      · refine .inr ⟨fun hex => hex.elim (fun he => absurd he (by decide)) (by omega), ?_⟩
        rw [hval, if_pos hbig]
        have hshort := Decimal.length_text_le (n := v.toNat) (k := 10) (by decide) (by omega)
        have hlong := Decimal.lt_length_text (n := v.toNat + (2 ^ 64 - 2 ^ 32)) (k := 19) (by omega)
        omega
      · rw [hval, if_neg hbig, Nat.add_zero]
        exact .inl ⟨.inr (not_le.mp hbig), rfl⟩
  | long v => exact .inl ⟨trivial, rfl⟩
  | ulong v => exact .inl ⟨trivial, rfl⟩
  | int v => exact .inl ⟨trivial, rfl⟩
  | unixtime v => exact .inl ⟨trivial, rfl⟩
  | str s => exact .inl ⟨trivial, rfl⟩

/-- As many entries as there are marks give one text only if each entry is exact. -/
theorem fill_printed_iff (env : Server) {template : List UInt8} {ps : List (Param abi)}
    (hcount : ps.length = template.count mark) :
    Template.fill mark template (ps.map (Param.printed env)) = Template.fill mark template (ps.map (Param.rendering env)) ↔
      ∀ p ∈ ps, p.Exact := by
  constructor
  · intro heq p hp
    have hmarks (f : Param abi → List UInt8) : (ps.map f).length = template.count mark := by
      rw [List.length_map, hcount]
    have hprinted := Template.length_fill (hmarks (Param.printed env))
    have hrendered := Template.length_fill (hmarks (Param.rendering env))
    rw [heq, List.length_map, List.map_map] at hprinted
    rw [List.length_map, List.map_map] at hrendered
    have hsum : (ps.map (List.length ∘ Param.printed env)).sum = (ps.map (List.length ∘ Param.rendering env)).sum := by
      omega
    have hle : ∀ p ∈ ps, (List.length ∘ Param.rendering env) p ≤ (List.length ∘ Param.printed env) p := by
      intro p _
      rcases p.printed_cases env with ⟨-, he⟩ | ⟨-, hlt⟩
      · exact (congrArg List.length he).ge
      · exact hlt.le
    have hlen : (p.printed env).length = (p.rendering env).length := Template.lengths_eq_of_sum hle hsum p hp
    rcases p.printed_cases env with ⟨hex, -⟩ | ⟨-, hlt⟩
    · exact hex
    · exact absurd hlen hlt.ne'
  · intro hex
    congr 1
    refine List.map_congr_left fun p hp => ?_
    rcases p.printed_cases env with ⟨-, he⟩ | ⟨hno, -⟩
    · exact he
    · exact absurd (hex p hp) hno

/-- Every call on a query, made after any of the calls before it, is answered from the template and the
parameters alone: a parameter is taken while marks are left, and then changes nothing any more; the text is
the template with its marks replaced in order, once there is a parameter for each. The text always lies in the
buffer, with its terminator. -/
def FillsInOrder (env : Server) (template : List UInt8) (cs : List (Call abi)) : Prop :=
  ∃ q₀, Query.create env template = some (some q₀) ∧ (q₀.bufUsed : Int) < q₀.bufSize ∧
    ∀ past c, past ++ [c] <+: cs → ∃ q q', q₀.calls env past = some q ∧
      q.call env c = some (q', expected (Param.rendering env) template (params past) c) ∧
      (q'.bufUsed : Int) < q'.bufSize ∧ (template.count mark ≤ (params past).length → ∀ p, c = .param p → q' = q)

/-- Queries are filled in order, apart from unsigned numbers that no `int` holds: these are printed wrong
where `long` is wider than `int`. -/
theorem fillsInOrder_iff {env : Server} (hw : env.Works) {template : List UInt8} (hne : template ≠ [])
    (cs : List (Call abi)) (hroom : HasRoom env template (params cs)) :
    FillsInOrder env template cs ↔ ∀ past, past ++ [.string] <+: cs → template.count mark ≤ (params past).length →
      ∀ p ∈ (params past).take (template.count mark), p.Exact := by
  obtain ⟨hcreate, hbuilt⟩ := create_built hw hne hroom
  have hrun (past : List (Call abi)) (c : Call abi) (hpre : past ++ [c] <+: cs) : ∃ q q',
      Query.calls env ⟨template, template, some [], ((2 * template.length : Nat) : Int)⟩ past = some q ∧
      q.call env c = some (q', expected (Param.printed env) template (params past) c) ∧
      (q'.bufUsed : Int) < q'.bufSize ∧
      (template.count mark ≤ (params past).length → ∀ p, c = .param p → q' = q) := by
    obtain ⟨later, rfl⟩ := hpre
    rw [List.append_assoc] at hbuilt
    obtain ⟨rest, text, size, hcalls, hb⟩ := hbuilt.calls hw past ([c] ++ later)
    obtain ⟨rest', text', size', hcall, hb', hsame⟩ := hb.call hw
    have hused : (text'.length : Int) < size' := by exact_mod_cast hb'.fits.used
    refine ⟨_, _, hcalls, hcall, hused, fun hge p hp => ?_⟩
    obtain ⟨rfl, rfl, rfl⟩ := hsame hge p hp
    rfl
  have hanswer (past : List (Call abi)) (c : Call abi) :
      expected (Param.printed env) template (params past) c = expected (Param.rendering env) template (params past) c ↔
        (c = .string → template.count mark ≤ (params past).length →
          ∀ p ∈ (params past).take (template.count mark), p.Exact) := by
    cases c with
    | param p => exact iff_of_true rfl fun hc => absurd hc (by simp)
    | string =>
      unfold expected
      by_cases hge : template.count mark ≤ (params past).length
      · have hcount : ((params past).take (template.count mark)).length = template.count mark := by
          rw [List.length_take, min_eq_left hge]
        rw [if_pos hge, if_pos hge, Answer.string.injEq, Option.some.injEq, fill_printed_iff env hcount]
        exact ⟨fun h _ _ => h, fun h => h rfl hge⟩
      · exact iff_of_true (by rw [if_neg hge, if_neg hge]) fun _ h => absurd h hge
  constructor
  · rintro ⟨q₀, hq₀, -, hall⟩ past hpre
    obtain rfl := Option.some.inj (Option.some.inj (hq₀.symm.trans hcreate))
    obtain ⟨q, q', hcalls, hcall, -⟩ := hall past .string hpre
    obtain ⟨r, r', hcalls', hcall', -⟩ := hrun past .string hpre
    obtain rfl := Option.some.inj (hcalls.symm.trans hcalls')
    have hsame := (Prod.mk.inj (Option.some.inj (hcall'.symm.trans hcall))).2
    exact (hanswer past .string).mp hsame rfl
  · intro hexact
    refine ⟨_, hcreate, ?_, fun past c hpre => ?_⟩
    · have hused : ((0 : Nat) : Int) < (2 * template.length : Nat) := by exact_mod_cast hbuilt.fits.used
      exact hused
    · obtain ⟨q, q', hcalls, hcall, hused, hkept⟩ := hrun past c hpre
      rw [(hanswer past c).mpr fun hc => hexact past (hc ▸ hpre)] at hcall
      exact ⟨q, q', hcalls, hcall, hused, hkept⟩

end

/-- `mysql_real_escape_string`, for a character set in which every byte is a character. -/
def escapeBytes (str : List UInt8) : List UInt8 :=
  str.flatMap fun c =>
    if c = 0 then [0x5C, 0x30] else if c = 0x0A then [0x5C, 0x6E] else if c = 0x0D then [0x5C, 0x72]
    else if c = 0x1A then [0x5C, 0x5A] else if c = 0x5C ∨ c = 0x27 ∨ c = 0x22 then [0x5C, c] else [c]

def server : Server := ⟨fun size => decide (0 ≤ size), true, escapeBytes⟩

theorem server_works : server.Works where
  alloc size hpos _ := decide_eq_true hpos.le
  connection := rfl
  escape str := by
    refine Nat.succ_le_succ ?_
    change (escapeBytes str).length ≤ _
    induction str with
    | nil => exact Nat.zero_le _
    | cons c str ih =>
      have hsplit : escapeBytes (c :: str) = escapeBytes [c] ++ escapeBytes str := by
        rw [escapeBytes, escapeBytes, escapeBytes, List.flatMap_cons, List.flatMap_singleton]
      have hone : (escapeBytes [c]).length ≤ 2 := by
        rw [escapeBytes, List.flatMap_singleton]
        split_ifs <;> simp only [List.length_cons, List.length_nil] <;> omega
      rw [hsplit, List.length_append, List.length_cons]
      omega

/-- A number, and a string with a quotation mark and a question mark. -/
theorem fillsInOrder_iff_two :
    let cs : List (Call .lp64) := [.param (.uint 7), .string, .param (.str (some (ascii "it's?"))), .string, .string]
    let past : List (Call .lp64) := [.param (.uint 7), .string, .param (.str (some (ascii "it's?")))]
    FillsInOrder server (ascii "a=? b=?") cs ∧
      expected (Param.rendering server) (ascii "a=? b=?") (params past) .string =
        .string (some (ascii "a=7 b='it\\'s?'")) := by
  intro cs past
  refine ⟨(fillsInOrder_iff server_works (by decide) cs (by decide)).mpr ?_, by decide⟩
  have hall : ∀ p ∈ params cs, p.Exact := by
    intro p hp
    rcases List.mem_cons.mp hp with rfl | hp
    · exact .inr (by decide)
    · rw [List.mem_singleton.mp hp]
      trivial
  intro past' hpre _ p hp
  have hsub : (params past').Sublist (params cs) :=
    ((List.sublist_append_left past' _).trans hpre.sublist).filterMap _
  exact hall p (hsub.subset (List.take_subset _ _ hp))

/-- The number 2147483648 in a query: it is taken as an `int`, and printed as a `long` that is not negative. -/
theorem unsigned_number_printed_negative :
    let cs : List (Call .lp64) := [.param (.uint 2147483648), .string]
    ((Query.create server [mark]).bind fun q₀ => q₀.bind fun q₀ => (q₀.calls server [.param (.uint 2147483648 : Param .lp64)]).bind
        fun q => (q.call server (.string : Call .lp64)).map Prod.snd) =
          some (.string (some (ascii "18446744071562067968"))) ∧
      ¬ FillsInOrder server [mark] cs := by
  intro cs
  have hrun : ((Query.create server [mark]).bind fun q₀ => q₀.bind fun q₀ =>
      (q₀.calls server [.param (.uint 2147483648 : Param .lp64)]).bind
        fun q => (q.call server (.string : Call .lp64)).map Prod.snd) =
          some (.string (some (ascii "18446744071562067968"))) := by decide +kernel
  refine ⟨hrun, fun hall => ?_⟩
  obtain ⟨q₀, hcreate, -, hall⟩ := hall
  obtain ⟨q, q', hcalls, hcall, -⟩ := hall [.param (.uint 2147483648)] .string (List.prefix_refl _)
  rw [hcreate] at hrun
  simp only [Option.bind_some, hcalls, hcall, Option.map_some] at hrun
  exact absurd hrun (by decide)

end Mvpmc.Cmyth.Mysql
