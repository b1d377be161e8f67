import Mvpmc.Cmyth.Number
import Mvpmc.Lib.Lines
import Mvpmc.Lib.Tokens
import Mvpmc.Web.Request

/-! Which file the web server opens for a path, and where the links of its directory listings lead (`www_mvpmc_start`,
`file_details`, `web_config.c`). -/
namespace Mvpmc.Web
open Mvpmc.Lib
open Mvpmc.Cmyth (cstring cstring_of_ne_zero)
open Mvpmc.Playlist (ascii strstr strpos)

/-- What `stat` finds. -/
inductive Kind where
  | missing
  | directory
  | regular
  deriving DecidableEq

/-- What a request for a path comes to: an error is sent, with an extra header perhaps, a file is opened, or a directory is
listed. -/
inductive Sent where
  | error (status : Nat) (title : String) (extraHeader : Option (List UInt8)) (text : String)
  | opened (file : List UInt8)
  | listed (file : List UInt8)
  deriving DecidableEq

/-- The path behind its first letter, decoded in place. -/
def decodedPath (path : List UInt8) : List UInt8 := cstring (strdecode (path.drop 1))

/-- The name of the file. -/
def fileOf (path : List UInt8) : List UInt8 :=
  if decodedPath path = [] then ascii "/usr/share/mvpmc/setup.html"
  else (ascii "/usr/share/mvpmc/" ++ decodedPath path).take 255

/-- What is done for a path. -/
def serveFile (stat : List UInt8 → Kind) (path : List UInt8) : Sent :=
  if path.head? ≠ some 47 then .error 400 "Bad Request" none "Bad filename."
  else
    let file := fileOf path
    if (strstr file (ascii "..")).isSome then .error 400 "Bad Request" none "Illegal filename."
    else
      match stat file with
      | .missing => .error 404 "Not Found" none "File not found."
      | .regular => .opened file
      | .directory =>
        if file.getLast? ≠ some 47 then
          .error 302 "Found" (some (ascii "Location: /" ++ decodedPath path ++ [47])) "Directories must end with a slash."
        else if stat (file ++ ascii "index.html") ≠ .missing then .opened (file ++ ascii "index.html")
        else .listed file

/-- `isalnum`. -/
def isalnum (c : UInt8) : Bool := (48 ≤ c && c ≤ 57) || (65 ≤ c && c ≤ 90) || (97 ≤ c && c ≤ 122)

/-- The letters that `strencode` leaves as they are. -/
def isKept (c : UInt8) : Bool := isalnum c || (ascii "/_.-~").contains c

/-- A digit of `%02x`. -/
def hexDigit (n : UInt8) : UInt8 := if n < 10 then 48 + n else 87 + n

/-- `strencode`, when `tolen` bytes have been stored: what it stores in front of the zero. -/
def strencode (tosize : Nat) : Nat → List UInt8 → List UInt8
  | _, [] => []
  | tolen, b :: text =>
    if tolen + 4 < tosize then
      if isKept b then b :: strencode tosize (tolen + 1) text
      else 37 :: hexDigit (b / 16) :: hexDigit (b % 16) :: strencode tosize (tolen + 3) text
    else []

/-- The link that `file_details` writes for a name. -/
def encodedName (name : List UInt8) : List UInt8 := strencode 1000 0 name

section Decoding
variable {b : UInt8} {p text name : List UInt8}

theorem strdecode_cons (h : b ≠ 37) (text : List UInt8) : strdecode (b :: text) = b :: strdecode text := by
  exact strdecode.eq_3 b text fun _ _ _ hb => absurd hb h

/-- A percent sign without two digits behind it stands for itself. -/
theorem strdecode_percent (h : ∀ x y rest, text = x :: y :: rest → (isxdigit x && isxdigit y) = false) :
    strdecode (37 :: text) = 37 :: strdecode text := by
  cases text with
  | nil => rfl
  | cons x text =>
    cases text with
    | nil => rfl
    | cons y rest => rw [strdecode, if_neg (by simp [h x y rest rfl])]

/-- No escape goes on behind a slash. -/
theorem strdecode_append (p text : List UInt8) : strdecode (p ++ 47 :: text) = strdecode p ++ 47 :: strdecode text := by
  induction p using strdecode.induct with
  | case1 => exact strdecode_cons (by decide) text
  | case2 x y p h ih =>
    rw [List.cons_append, List.cons_append, List.cons_append, strdecode, strdecode, if_pos h, if_pos h, ih]
    rfl
  | case3 x y p h ih =>
    rw [List.cons_append, List.cons_append, List.cons_append, strdecode, strdecode, if_neg h, if_neg h]
    exact congrArg (37 :: ·) ih
  | case4 b p hp ih =>
    rw [strdecode.eq_3 b p hp, List.cons_append, List.cons_append, ← ih]
    by_cases hb : b = 37
    · subst hb
      refine strdecode_percent fun x y rest he => ?_
      cases p with
      | nil =>
        obtain ⟨rfl, -⟩ := List.cons.inj he
        rfl
      | cons c p =>
        cases p with
        | nil =>
          obtain ⟨rfl, -⟩ := List.cons.inj (List.cons.inj he).2
          exact Bool.and_false _
        | cons d p => exact (hp c d p rfl rfl).elim
    · exact strdecode_cons hb _

theorem hex_spec (b : UInt8) : isxdigit (hexDigit (b / 16)) = true ∧ isxdigit (hexDigit (b % 16)) = true ∧
    hexit (hexDigit (b / 16)) * 16 + hexit (hexDigit (b % 16)) = b := by
  have hall : ∀ n < 256, isxdigit (hexDigit (UInt8.ofNat n / 16)) = true ∧ isxdigit (hexDigit (UInt8.ofNat n % 16)) = true ∧
      hexit (hexDigit (UInt8.ofNat n / 16)) * 16 + hexit (hexDigit (UInt8.ofNat n % 16)) = UInt8.ofNat n := by decide +kernel
  have hb := hall b.toNat b.toNat_lt
  rwa [UInt8.ofNat_toNat] at hb

theorem kept_ne (h : isKept b = true) : b ≠ 37 := by
  rintro rfl
  exact absurd h (by decide)

/-- A name is found again behind its link. -/
theorem strdecode_strencode {tosize tolen : Nat} (h : tolen + 3 * name.length + 1 < tosize) :
    strdecode (strencode tosize tolen name) = name := by
  induction name generalizing tolen with
  | nil => rfl
  | cons b name ih =>
    rw [List.length_cons] at h
    rw [strencode, if_pos (by omega)]
    split
    · rename_i hkept
      rw [strdecode_cons (kept_ne hkept), ih (by omega)]
    · obtain ⟨hhigh, hlow, hbyte⟩ := hex_spec b
      rw [strdecode, if_pos (by rw [hhigh, hlow]; rfl), ih (by omega), hbyte]

end Decoding

section Served
variable {stat : List UInt8 → Kind} {path file dir name : List UInt8}

/-- `strstr` finds what is in a string. -/
theorem strstr_isSome {s t : List UInt8} (h : t <:+: s) : (strstr s t).isSome = true := by
  obtain ⟨a, b, rfl⟩ := h
  rw [strstr, strpos, Option.isSome_map, List.findIdx?_isSome, List.any_eq_true]
  refine ⟨t ++ b, ?_, List.isPrefixOf_iff_prefix.mpr (List.prefix_append t b)⟩
  rw [List.mem_tails, List.append_assoc]
  exact List.suffix_append a (t ++ b)

/-- The directory that is served. -/
def root : List (List UInt8) := [ascii "usr", ascii "share", ascii "mvpmc"]

theorem fileOf_root (path : List UInt8) : ∃ text, fileOf path = ascii "/usr/share/mvpmc" ++ 47 :: text := by
  unfold fileOf
  split
  · exact ⟨ascii "setup.html", by decide⟩
  · have hbase : ascii "/usr/share/mvpmc/" = ascii "/usr/share/mvpmc" ++ [47] := by decide
    have hlen : (ascii "/usr/share/mvpmc").length = 16 := by decide
    refine ⟨(decodedPath path).take 238, ?_⟩
    rw [hbase, List.append_assoc, List.take_append, hlen, List.take_of_length_le (by omega)]
    rfl

/-- A name without two dots in it leads to a place below the root. -/
theorem root_below {text : List UInt8} (h : ¬ ascii ".." <:+: ascii "/usr/share/mvpmc" ++ 47 :: text) :
    root <+: resolve 47 46 (ascii "/usr/share/mvpmc" ++ 47 :: text) := by
  have hroot : root = resolve 47 46 (ascii "/usr/share/mvpmc") := by decide
  have hdots : ascii ".." = [46, 46] := by decide
  rw [hroot]
  refine resolve_below _ fun hmem => h ?_
  rw [hdots]
  exact (List.infix_cons (infix_of_mem_splitOnP hmem)).trans (List.suffix_append _ _).isInfix

/-- What is opened or listed is the file of the path or the index in it, and has no two dots. -/
theorem served_cases (h : serveFile stat path = .opened file ∨ serveFile stat path = .listed file) :
    ¬ ascii ".." <:+: fileOf path ∧
      (file = fileOf path ∨ file = fileOf path ++ ascii "index.html" ∧ (fileOf path).getLast? = some 47) := by
  unfold serveFile at h
  split at h
  · rcases h with h | h <;> cases h
  · dsimp only at h
    split at h
    · rcases h with h | h <;> cases h
    · rename_i hdots
      refine ⟨fun hin => hdots (strstr_isSome hin), ?_⟩
      split at h
      · rcases h with h | h <;> cases h
      · rcases h with h | h
        · exact .inl (Sent.opened.inj h).symm
        · cases h
      · split at h
        · rcases h with h | h <;> cases h
        · rename_i hslash
          split at h
          · rcases h with h | h
            · exact .inr ⟨(Sent.opened.inj h).symm, by simpa using hslash⟩
            · cases h
          · rcases h with h | h
            · cases h
            · exact .inl (Sent.listed.inj h).symm

/-- Whatever path is asked for and whatever the file system is, the server opens and lists nothing outside of its root. -/
theorem serves_below_root (h : serveFile stat path = .opened file ∨ serveFile stat path = .listed file) :
    root <+: resolve 47 46 file := by
  obtain ⟨hdots, hfile⟩ := served_cases h
  obtain ⟨text, htext⟩ := fileOf_root path
  rw [htext] at hdots hfile
  rcases hfile with rfl | ⟨rfl, hslash⟩
  · exact root_below hdots
  · -- the index lies in a directory that is named without the last slash
    have hindex : [46, 46] ∉ (ascii "index.html").splitOnP (· == 47) := by decide
    obtain ⟨dir, hdir, hbelow⟩ : ∃ dir, ascii "/usr/share/mvpmc" ++ 47 :: text = dir ++ [47] ∧ root <+: resolve 47 46 dir := by
      rcases List.eq_nil_or_concat text with rfl | ⟨text, b, rfl⟩
      · exact ⟨ascii "/usr/share/mvpmc", rfl, by decide⟩
      · rw [List.concat_eq_append] at hdots hslash ⊢
        rw [← List.cons_append, ← List.append_assoc, List.getLast?_concat] at hslash
        obtain rfl := Option.some.inj hslash
        refine ⟨ascii "/usr/share/mvpmc" ++ 47 :: text, by simp, root_below fun hin => hdots (hin.trans ?_)⟩
        rw [← List.cons_append, ← List.append_assoc]
        exact (List.prefix_append _ _).isInfix
    rw [hdir, List.append_assoc, List.singleton_append]
    exact hbelow.trans (resolve_below dir hindex)

theorem decodedPath_of {text : List UInt8} (h : 0 ∉ strdecode text) : decodedPath (47 :: text) = strdecode text := by
  unfold decodedPath
  exact cstring_of_ne_zero fun b hb hzero => h (hzero ▸ hb)

/-- The name of the file that a link leads to, when the directory has been asked for with a slash at the end. -/
theorem fileOf_link (hdir : fileOf (47 :: (path ++ [47])) = dir) (hzero : 0 ∉ strdecode (path ++ [47])) (hname : 0 ∉ name)
    (hne : name ≠ []) (hlen : name.length < 333) (hfit : dir.length + name.length < 256) :
    fileOf (47 :: (path ++ 47 :: encodedName name)) = dir ++ name := by
  have hpos := List.length_pos_iff.mpr hne
  have hback : strdecode (encodedName name) = name := strdecode_strencode (by omega)
  have hlink : strdecode (path ++ 47 :: encodedName name) = strdecode (path ++ [47]) ++ name := by
    rw [strdecode_append, strdecode_append, hback, List.append_assoc]
    rfl
  have hslash : strdecode (path ++ [47]) ≠ [] := by
    rw [strdecode_append]
    exact List.append_ne_nil_of_right_ne_nil _ (List.cons_ne_nil _ _)
  have hzero' : 0 ∉ strdecode (path ++ 47 :: encodedName name) := by
    rw [hlink]
    exact fun hmem => (List.mem_append.mp hmem).elim hzero hname
  unfold fileOf at hdir ⊢
  rw [decodedPath_of hzero, if_neg hslash] at hdir
  rw [decodedPath_of hzero', hlink, if_neg (List.append_ne_nil_of_left_ne_nil hslash _), ← List.append_assoc]
  subst hdir
  generalize ascii "/usr/share/mvpmc/" ++ strdecode (path ++ [47]) = whole at hfit ⊢
  rw [List.length_take] at hfit
  rw [List.take_of_length_le (show whole.length ≤ 255 by omega),
    List.take_of_length_le (by rw [List.length_append]; omega)]

/-- A listing is one of the directory that has been asked for. -/
theorem listed_eq (h : serveFile stat path = .listed dir) : dir = fileOf path := by
  unfold serveFile at h
  dsimp only at h
  split at h
  · cases h
  · split at h
    · cases h
    · split at h
      · cases h
      · cases h
      · split at h
        · cases h
        · split at h
          · cases h
          · exact (Sent.listed.inj h).symm

end Served

/-- A file system with one directory below the root, and a file in it with a blank in its name. -/
def images (file : List UInt8) : Kind :=
  if file = ascii "/usr/share/mvpmc/images/" then .directory
  else if file = ascii "/usr/share/mvpmc/images/" ++ ascii "tv 2.png" then .regular
  else .missing

theorem serves_below_root_images : root <+: resolve 47 46 (ascii "/usr/share/mvpmc/images/" ++ ascii "tv 2.png") := by
  have hserve : serveFile images (ascii "/images/tv%202.png") =
      .opened (ascii "/usr/share/mvpmc/images/" ++ ascii "tv 2.png") := by decide
  exact serves_below_root (.inl hserve)

end Mvpmc.Web
