import Mathlib.Algebra.Group.Nat.Defs
import TaskMachine.Text.Blank
import TaskMachine.Text.Quoted

/-!
# Quoted byte strings are read back

A byte string is the bytes of its pieces one after the other, and the quoted
form of a piece is read as the bytes of the piece, whatever comes after it. So
every byte string is read back from its quoted form.
-/

namespace TaskMachine.Quoting

open Numeral Text Text.Quoted Text.Utf8

/-! ## Pieces -/

/-- The bytes of a piece. -/
def bytesOf : Piece → List UInt8
  | .char c => String.utf8EncodeChar c
  | .stray b => [b]

theorem toNat_of_scalar? {least n : Nat} {c : Char} (h : scalar? least n = some c) :
    c.toNat = n ∧ least ≤ n ∧ n ≤ 0x10ffff := by
  unfold scalar? at h
  split at h
  · rename_i hn
    cases h
    have hvalid : n.isValidChar := by
      unfold Nat.isValidChar
      omega
    rw [Char.ofNat, dif_pos hvalid]
    exact ⟨rfl, hn.1, hn.2.1⟩
  · cases h

theorem toNat_of_continuation? {b : UInt8} {x : Nat} (h : continuation? b = some x) :
    b.toNat = x + 0x80 ∧ x < 0x40 := by
  unfold continuation? at h
  split at h
  · rename_i hb
    have hx := Option.some.inj h
    have hlow : 0x80 ≤ b.toNat := UInt8.le_iff_toNat_le.mp hb.1
    have hhigh : b.toNat < 0xc0 := UInt8.lt_iff_toNat_lt.mp hb.2
    omega
  · cases h

section Encodings

variable {c : Char} {a b d e : UInt8} {x y z : Nat}

theorem ofNat_of_toNat {k : Nat} (h : k = b.toNat) : UInt8.ofNat k = b := by
  rw [h, UInt8.ofNat_toNat]

theorem utf8EncodeChar_one (h : c.toNat < 0x80) :
    String.utf8EncodeChar c = [UInt8.ofNat c.toNat] := by
  unfold String.utf8EncodeChar
  exact if_pos (Nat.le_of_lt_succ h)

theorem utf8EncodeChar_two (ha : 0xc0 ≤ a.toNat ∧ a.toNat < 0xe0) (hb : b.toNat = x + 0x80)
    (hx : x < 0x40) (hc : c.toNat = (a.toNat - 0xc0) * 64 + x) (hleast : 0x80 ≤ c.toNat) :
    String.utf8EncodeChar c = [a, b] := by
  unfold String.utf8EncodeChar
  change c.val.toNat = _ at hc
  change _ ≤ c.val.toNat at hleast
  rw [if_neg (by omega), if_pos (by omega), ofNat_of_toNat (b := a) (by omega),
    ofNat_of_toNat (b := b) (by omega)]

theorem utf8EncodeChar_three (ha : 0xe0 ≤ a.toNat ∧ a.toNat < 0xf0) (hb : b.toNat = x + 0x80)
    (hx : x < 0x40) (hd : d.toNat = y + 0x80) (hy : y < 0x40)
    (hc : c.toNat = ((a.toNat - 0xe0) * 64 + x) * 64 + y) (hleast : 0x800 ≤ c.toNat) :
    String.utf8EncodeChar c = [a, b, d] := by
  unfold String.utf8EncodeChar
  change c.val.toNat = _ at hc
  change _ ≤ c.val.toNat at hleast
  rw [if_neg (by omega), if_neg (by omega), if_pos (by omega), ofNat_of_toNat (b := a) (by omega),
    ofNat_of_toNat (b := b) (by omega), ofNat_of_toNat (b := d) (by omega)]

theorem utf8EncodeChar_four (ha : 0xf0 ≤ a.toNat ∧ a.toNat < 0xf8) (hb : b.toNat = x + 0x80)
    (hx : x < 0x40) (hd : d.toNat = y + 0x80) (hy : y < 0x40) (he : e.toNat = z + 0x80)
    (hz : z < 0x40) (hc : c.toNat = (((a.toNat - 0xf0) * 64 + x) * 64 + y) * 64 + z)
    (hleast : 0x10000 ≤ c.toNat) : String.utf8EncodeChar c = [a, b, d, e] := by
  unfold String.utf8EncodeChar
  change c.val.toNat = _ at hc
  change _ ≤ c.val.toNat at hleast
  rw [if_neg (by omega), if_neg (by omega), if_neg (by omega), ofNat_of_toNat (b := a) (by omega),
    ofNat_of_toNat (b := b) (by omega), ofNat_of_toNat (b := d) (by omega),
    ofNat_of_toNat (b := e) (by omega)]

end Encodings

/-- A character that is read from some bytes has these bytes. -/
theorem utf8EncodeChar_of_lead? {a : UInt8} {rest : List UInt8} {c : Char} {n : Nat}
    (h : lead? a rest = some (c, n)) :
    n ≤ rest.length ∧ String.utf8EncodeChar c = a :: rest.take n := by
  have hrange {low high : UInt8} (hlead : low ≤ a ∧ a < high) :
      low.toNat ≤ a.toNat ∧ a.toNat < high.toNat :=
    ⟨UInt8.le_iff_toNat_le.mp hlead.1, UInt8.lt_iff_toNat_lt.mp hlead.2⟩
  unfold lead? at h
  split at h
  · rename_i ha
    have hlow : a.toNat < 0x80 := UInt8.lt_iff_toNat_lt.mp ha
    obtain ⟨rfl, rfl⟩ := Prod.mk.inj (Option.some.inj h)
    have hvalid : a.toNat.isValidChar := by
      unfold Nat.isValidChar
      omega
    have hc : (Char.ofNat a.toNat).toNat = a.toNat := by
      rw [Char.ofNat, dif_pos hvalid]
      rfl
    refine ⟨Nat.zero_le _, ?_⟩
    rw [utf8EncodeChar_one (by omega), hc, UInt8.ofNat_toNat]
    rfl
  split at h
  · rename_i ha
    match rest, h with
    | b :: tail, h =>
      obtain ⟨x, hx, h⟩ := Option.bind_eq_some_iff.mp h
      obtain ⟨r, hr, h⟩ := Option.bind_eq_some_iff.mp h
      obtain ⟨rfl, rfl⟩ := Prod.mk.inj (Option.some.inj h)
      obtain ⟨hb, hx⟩ := toNat_of_continuation? hx
      obtain ⟨hc, hleast, -⟩ := toNat_of_scalar? hr
      exact ⟨Nat.le_add_left 1 _, utf8EncodeChar_two (hrange ha) hb hx hc (hc ▸ hleast)⟩
  split at h
  · rename_i ha
    match rest, h with
    | b :: d :: tail, h =>
      obtain ⟨x, hx, h⟩ := Option.bind_eq_some_iff.mp h
      obtain ⟨y, hy, h⟩ := Option.bind_eq_some_iff.mp h
      obtain ⟨r, hr, h⟩ := Option.bind_eq_some_iff.mp h
      obtain ⟨rfl, rfl⟩ := Prod.mk.inj (Option.some.inj h)
      obtain ⟨hb, hx⟩ := toNat_of_continuation? hx
      obtain ⟨hd, hy⟩ := toNat_of_continuation? hy
      obtain ⟨hc, hleast, -⟩ := toNat_of_scalar? hr
      exact ⟨Nat.le_add_left 2 _, utf8EncodeChar_three (hrange ha) hb hx hd hy hc (hc ▸ hleast)⟩
  split at h
  · rename_i ha
    match rest, h with
    | b :: d :: e :: tail, h =>
      obtain ⟨x, hx, h⟩ := Option.bind_eq_some_iff.mp h
      obtain ⟨y, hy, h⟩ := Option.bind_eq_some_iff.mp h
      obtain ⟨z, hz, h⟩ := Option.bind_eq_some_iff.mp h
      obtain ⟨r, hr, h⟩ := Option.bind_eq_some_iff.mp h
      obtain ⟨rfl, rfl⟩ := Prod.mk.inj (Option.some.inj h)
      obtain ⟨hb, hx⟩ := toNat_of_continuation? hx
      obtain ⟨hd, hy⟩ := toNat_of_continuation? hy
      obtain ⟨he, hz⟩ := toNat_of_continuation? hz
      obtain ⟨hc, hleast, -⟩ := toNat_of_scalar? hr
      exact ⟨Nat.le_add_left 3 _,
        utf8EncodeChar_four (hrange ha) hb hx hd hy he hz hc (hc ▸ hleast)⟩
  · cases h

/-- A stray byte is no character of its own. -/
theorem le_of_stray {a : UInt8} {rest : List UInt8} (h : lead? a rest = none) : 0x80 ≤ a.toNat := by
  refine Nat.le_of_not_lt fun hlow => ?_
  unfold lead? at h
  rw [if_pos (UInt8.lt_iff_toNat_lt.mpr hlow)] at h
  cases h

theorem piecesFrom_char {a : UInt8} {rest : List UInt8} {c : Char} {n : Nat}
    (h : lead? a rest = some (c, n)) (acc : List Piece) :
    piecesFrom 0 (a :: rest) acc = piecesFrom n rest (.char c :: acc) := by
  rw [piecesFrom, h]

theorem piecesFrom_stray {a : UInt8} {rest : List UInt8} (h : lead? a rest = none)
    (acc : List Piece) : piecesFrom 0 (a :: rest) acc = piecesFrom 0 rest (.stray a :: acc) := by
  rw [piecesFrom, h]

theorem flatMap_piecesFrom (skip : Nat) (bytes : List UInt8) (acc : List Piece)
    (h : skip ≤ bytes.length) :
    (piecesFrom skip bytes acc).flatMap bytesOf = acc.reverse.flatMap bytesOf ++ bytes.drop skip := by
  induction bytes generalizing skip acc with
  | nil =>
    rw [List.drop_nil, List.append_nil]
    rfl
  | cons a rest ih =>
    cases skip with
    | succ k => exact ih k acc (Nat.le_of_succ_le_succ h)
    | zero =>
      cases hlead : lead? a rest with
      | none =>
        rw [piecesFrom_stray hlead, ih 0 _ (Nat.zero_le _)]
        simp [bytesOf]
      | some found =>
        obtain ⟨c, n⟩ := found
        obtain ⟨hn, hbytes⟩ := utf8EncodeChar_of_lead? hlead
        rw [piecesFrom_char hlead, ih n _ hn]
        simp [bytesOf, hbytes]

/-- A byte string is the bytes of its pieces. -/
theorem flatMap_pieces (bytes : List UInt8) : (pieces bytes).flatMap bytesOf = bytes :=
  flatMap_piecesFrom 0 bytes [] (Nat.zero_le _)

/-- A piece that reading can give: only bytes that no character begins with stand alone. -/
def Regular : Piece → Prop
  | .char _ => True
  | .stray b => 0x80 ≤ b.toNat

theorem regular_piecesFrom (skip : Nat) (bytes : List UInt8) {acc : List Piece}
    (hacc : ∀ p ∈ acc, Regular p) : ∀ p ∈ piecesFrom skip bytes acc, Regular p := by
  induction bytes generalizing skip acc with
  | nil => exact fun p hp => hacc p (List.mem_reverse.mp hp)
  | cons a rest ih =>
    cases skip with
    | succ k => exact ih k hacc
    | zero =>
      cases hlead : lead? a rest with
      | none =>
        rw [piecesFrom_stray hlead]
        exact ih 0 (List.forall_mem_cons.mpr ⟨le_of_stray hlead, hacc⟩)
      | some found =>
        rw [piecesFrom_char hlead]
        exact ih found.2 (List.forall_mem_cons.mpr ⟨trivial, hacc⟩)

theorem regular_pieces (bytes : List UInt8) : ∀ p ∈ pieces bytes, Regular p :=
  regular_piecesFrom 0 bytes nofun

/-! ## Hexadecimal digits -/

theorem digitValue?_hexDigit : ∀ d < 16, digitValue? (Nat.digitChar d) = some d := by decide

theorem fixedDigits?_cons (base k : Nat) (c : Char) (cs : List Char) (n : Nat) :
    fixedDigits? base (k + 1) (c :: cs) n =
      (digitValue? c).bind fun d =>
        if d < base then fixedDigits? base k cs (n * base + d) else none := by
  rw [fixedDigits?]
  cases digitValue? c <;> rfl

theorem fixedDigits?_append {base n m : Nat} {cs : List Char}
    (h : fixedDigits? base cs.length cs n = some m) (k : Nat) (rest : List Char) :
    fixedDigits? base (cs.length + k) (cs ++ rest) n = fixedDigits? base k rest m := by
  induction cs generalizing n with
  | nil =>
    cases h
    rw [List.length_nil, Nat.zero_add, List.nil_append]
  | cons c cs ih =>
    rw [List.length_cons, fixedDigits?_cons] at h
    obtain ⟨d, hvalue, h⟩ := Option.bind_eq_some_iff.mp h
    rw [List.length_cons, Nat.succ_add, List.cons_append, fixedDigits?_cons, hvalue,
      Option.bind_some]
    split at h
    · rename_i hd
      rw [if_pos hd]
      exact ih h
    · cases h

theorem fixedDigits?_hexDigit {n d : Nat} (hd : d < 16) :
    fixedDigits? 16 1 [Nat.digitChar d] n = some (n * 16 + d) := by
  rw [fixedDigits?_cons, digitValue?_hexDigit d hd, Option.bind_some]
  exact if_pos hd

/-- The digits of a number are read as the number; the last one is read last. -/
theorem fixedDigits?_toDigits (n : Nat) :
    fixedDigits? 16 (Nat.toDigits 16 n).length (Nat.toDigits 16 n) 0 = some n := by
  induction n using Nat.strongRecOn with
  | ind n ih =>
    by_cases hsmall : n < 16
    · rw [Nat.toDigits_of_lt_base hsmall, List.length_singleton, fixedDigits?_hexDigit hsmall,
        Nat.zero_mul, Nat.zero_add]
    · rw [Nat.toDigits_of_base_le (by decide) (Nat.not_lt.mp hsmall), List.length_append,
        fixedDigits?_append (ih (n / 16) (by omega)), List.length_singleton,
        fixedDigits?_hexDigit (by omega)]
      congr 1
      omega

theorem fixedDigits?_zeros (k : Nat) :
    fixedDigits? 16 (List.replicate k '0').length (List.replicate k '0') 0 = some 0 := by
  induction k with
  | zero => rfl
  | succ k ih =>
    rw [List.replicate_succ, List.length_cons, fixedDigits?_cons]
    exact ih

/-- A number that has room in so many digits is read back from them, whatever comes after. -/
theorem fixedDigits?_padded {k n : Nat} (hk : 0 < k) (hn : n < 16 ^ k) (rest : List Char) :
    fixedDigits? 16 k (padLeft '0' k (Nat.toDigits 16 n) ++ rest) 0 = some n := by
  have hlength : (Nat.toDigits 16 n).length ≤ k :=
    (Nat.length_toDigits_le_iff (by decide) hk).mpr hn
  have hzeros := fixedDigits?_append (fixedDigits?_zeros (k - (Nat.toDigits 16 n).length))
    ((Nat.toDigits 16 n).length + 0) (Nat.toDigits 16 n ++ rest)
  rw [fixedDigits?_append (fixedDigits?_toDigits n), List.length_replicate, Nat.add_zero,
    Nat.sub_add_cancel hlength, ← List.append_assoc] at hzeros
  exact hzeros

theorem length_padded {k n : Nat} (hk : 0 < k) (hn : n < 16 ^ k) :
    (padLeft '0' k (Nat.toDigits 16 n)).length = k := by
  have hlength : (Nat.toDigits 16 n).length ≤ k :=
    (Nat.length_toDigits_le_iff (by decide) hk).mpr hn
  rw [padLeft, List.length_append, List.length_replicate, Nat.sub_add_cancel hlength]

/-! ## Escapes -/

/-- The characters of quoted text that mean something elsewhere in a source. -/
def isMark (c : Char) : Bool := [' ', ';', '\'', '$'].contains c

theorem of_isMark {p : Char → Bool} (hall : [' ', ';', '\'', '$'].all p = true) {c : Char}
    (h : isMark c = true) : p c = true :=
  List.all_eq_true.mp hall c (List.contains_iff_mem.mp h)

/-- The characters that may stand after the backslash of an escape. -/
def inEscape (c : Char) : Bool := isPrintable c && !isMark c

/-- What stands in quotes for some bytes: a character that stands for itself, or an escape. -/
inductive Stands (bytes : List UInt8) : List Char → Prop
  | self {c : Char} (hprintable : isPrintable c = true) (hquote : c ≠ '"') (hslash : c ≠ '\\')
    (hbytes : String.utf8EncodeChar c = bytes) : Stands bytes [c]
  | escape {cs : List Char} (hchars : ∀ c ∈ cs, inEscape c = true)
    (hread : ∀ rest, escape? '"' (cs ++ rest) = some (bytes, cs.length)) : Stands bytes ('\\' :: cs)

theorem inEscape_hexDigit : ∀ d < 16, inEscape (Nat.digitChar d) = true := by decide

theorem inEscape_toDigits (n : Nat) : ∀ c ∈ Nat.toDigits 16 n, inEscape c = true := by
  induction n using Nat.strongRecOn with
  | ind n ih =>
    by_cases hsmall : n < 16
    · rw [Nat.toDigits_of_lt_base hsmall]
      exact List.forall_mem_singleton.mpr (inEscape_hexDigit n hsmall)
    · rw [Nat.toDigits_of_base_le (by decide) (Nat.not_lt.mp hsmall)]
      refine List.forall_mem_append.mpr ⟨ih (n / 16) (by omega), ?_⟩
      exact List.forall_mem_singleton.mpr (inEscape_hexDigit _ (by omega))

theorem inEscape_padded (k n : Nat) :
    ∀ c ∈ padLeft '0' k (Nat.toDigits 16 n), inEscape c = true := by
  refine List.forall_mem_append.mpr ⟨fun c hc => ?_, inEscape_toDigits n⟩
  rw [List.eq_of_mem_replicate hc]
  decide

/-- An escape of a letter and so many hexadecimal digits stands for what its letter makes of the
number. -/
theorem stands_hexEscape {bytes : List UInt8} {e : Char} {k n : Nat} (he : inEscape e = true)
    (hk : 0 < k) (hn : n < 16 ^ k)
    (hread : ∀ cs, fixedDigits? 16 k cs 0 = some n → escape? '"' (e :: cs) = some (bytes, k + 1)) :
    Stands bytes ('\\' :: e :: padLeft '0' k (Nat.toDigits 16 n)) := by
  refine .escape (List.forall_mem_cons.mpr ⟨he, inEscape_padded k n⟩) fun rest => ?_
  rw [List.length_cons, length_padded hk hn]
  exact hread _ (fixedDigits?_padded hk hn rest)

theorem stands_hexByte {n : Nat} (hn : n < 0x100) :
    Stands [UInt8.ofNat n] ('\\' :: 'x' :: padLeft '0' 2 (Nat.toDigits 16 n)) := by
  refine stands_hexEscape (by decide) (by decide) hn fun cs hcs => ?_
  change (fixedDigits? 16 2 cs 0).map _ = _
  rw [hcs]
  rfl

theorem scalar?_toNat (c : Char) : scalar? 0 c.toNat = some c := by
  have hvalid : c.toNat.isValidChar := c.valid
  unfold Nat.isValidChar at hvalid
  unfold scalar?
  rw [if_pos (by omega), Char.ofNat_toNat]

theorem stands_hexChar {c : Char} (hsmall : c.toNat < 0x10000) :
    Stands (String.utf8EncodeChar c) ('\\' :: 'u' :: padLeft '0' 4 (Nat.toDigits 16 c.toNat)) := by
  refine stands_hexEscape (by decide) (by decide) hsmall fun cs hcs => ?_
  change (fixedDigits? 16 4 cs 0).bind _ = _
  rw [hcs, Option.bind_some, scalar?_toNat]
  rfl

theorem stands_wideHexChar (c : Char) :
    Stands (String.utf8EncodeChar c) ('\\' :: 'U' :: padLeft '0' 8 (Nat.toDigits 16 c.toNat)) := by
  refine stands_hexEscape (by decide) (by decide) c.val.toNat_lt fun cs hcs => ?_
  change (fixedDigits? 16 8 cs 0).bind _ = _
  rw [hcs, Option.bind_some, scalar?_toNat]
  rfl

theorem stands_shortEscape {c : Char} {n : Nat} (hc : c.toNat = n) {e : Char} (he : inEscape e = true)
    (hread : ∀ rest, escape? '"' (e :: rest) = some ([UInt8.ofNat n], 1)) (hn : n < 0x80) :
    Stands (String.utf8EncodeChar c) ['\\', e] := by
  rw [utf8EncodeChar_one (by omega), hc]
  exact .escape (List.forall_mem_singleton.mpr he) hread

/-- What a character is written as in quotes stands for the character. -/
theorem stands_escapeChar (c : Char) : Stands (String.utf8EncodeChar c) (escapeChar c) := by
  unfold escapeChar
  split
  · rename_i hc
    rcases hc with rfl | rfl
    · exact stands_shortEscape rfl (by decide) (fun _ => rfl) (by decide)
    · exact stands_shortEscape rfl (by decide) (fun _ => rfl) (by decide)
  rename_i hc
  split
  · rename_i hprintable
    exact .self hprintable (fun h => hc (.inl h)) (fun h => hc (.inr h)) rfl
  split
  case h_8 =>
    split
    · rename_i hcontrol
      rw [utf8EncodeChar_one (by omega)]
      exact stands_hexByte (by omega)
    split
    · rename_i hsmall
      exact stands_hexChar hsmall
    · exact stands_wideHexChar c
  all_goals exact stands_shortEscape ‹_› (by decide) (fun _ => rfl) (by decide)

/-- What a piece is written as in quotes stands for the bytes of the piece. -/
theorem stands_escapePiece (p : Piece) : Stands (bytesOf p) (escapePiece p) := by
  cases p with
  | char c => exact stands_escapeChar c
  | stray b =>
    have hstands := stands_hexByte b.toNat_lt
    rw [UInt8.ofNat_toNat] at hstands
    exact hstands

/-! ## Reading quoted text -/

theorem bodyBytes_skip (cs rest : List Char) (acc : List UInt8) :
    bodyBytes cs.length (cs ++ rest) acc = bodyBytes 0 rest acc := by
  induction cs with
  | nil => rfl
  | cons c cs ih =>
    rw [List.length_cons, List.cons_append, bodyBytes]
    exact ih

theorem Stands.bodyBytes {bytes : List UInt8} {cs : List Char} (h : Stands bytes cs)
    (rest : List Char) (acc : List UInt8) :
    bodyBytes 0 (cs ++ rest) acc = Quoted.bodyBytes 0 rest (bytes.reverse ++ acc) := by
  cases h with
  | @self c hprintable hquote hslash hbytes =>
    have hline : c ≠ '\n' := by
      rintro rfl
      cases hprintable
    rw [List.singleton_append, Quoted.bodyBytes, if_neg hquote, if_neg hline, if_neg hslash, hbytes]
  | @escape cs hchars hread =>
    rw [List.cons_append, Quoted.bodyBytes, if_neg (by decide), if_neg (by decide),
      if_pos rfl, hread rest]
    exact bodyBytes_skip cs rest _

/-- The quoted form of some pieces is read as their bytes, and what comes after it is read on. -/
theorem bodyBytes_pieces (ps : List Piece) (rest : List Char) (acc : List UInt8) :
    bodyBytes 0 (ps.flatMap escapePiece ++ rest) acc =
      bodyBytes 0 rest ((ps.flatMap bytesOf).reverse ++ acc) := by
  induction ps generalizing acc with
  | nil => rfl
  | cons p ps ih =>
    rw [List.flatMap_cons, List.append_assoc, (stands_escapePiece p).bodyBytes, ih,
      List.flatMap_cons, List.reverse_append, List.append_assoc]

/-- What stands for some pieces after an opening quote. -/
def quoted (ps : List Piece) : List Char := ps.flatMap escapePiece ++ ['"']

theorem quoted_cons (p : Piece) (ps : List Piece) :
    quoted (p :: ps) = escapePiece p ++ quoted ps := by
  unfold quoted
  rw [List.flatMap_cons, List.append_assoc]

theorem toList_encode (bytes : List UInt8) :
    (encode bytes).toList = '"' :: quoted (pieces bytes) :=
  String.toList_ofList

/-- Every byte string is read back from its quoted form. -/
theorem decode_encode (bytes : List UInt8) : decode (encode bytes).toList = some bytes := by
  rw [toList_encode]
  change bodyBytes 0 ((pieces bytes).flatMap escapePiece ++ ['"']) [] = _
  rw [bodyBytes_pieces, flatMap_pieces, List.append_nil]
  change some bytes.reverse.reverse = _
  rw [List.reverse_reverse]

/-! ## The characters of quoted text -/

theorem isPrintable_of_mem_escapePiece {p : Piece} {c : Char} (h : c ∈ escapePiece p) :
    isPrintable c = true := by
  generalize hcs : escapePiece p = cs at h
  have hstands := stands_escapePiece p
  rw [hcs] at hstands
  cases hstands with
  | self hprintable hquote hslash hbytes =>
    rw [List.mem_singleton.mp h]
    exact hprintable
  | escape hchars hread =>
    rcases List.mem_cons.mp h with rfl | hmem
    · decide
    · exact (Bool.and_eq_true_iff.mp (hchars c hmem)).1

/-- Quoted text is made of printable characters only. -/
theorem isPrintable_of_mem_encode {bytes : List UInt8} {c : Char}
    (h : c ∈ (encode bytes).toList) : isPrintable c = true := by
  rw [toList_encode, quoted, List.mem_cons, List.mem_append, List.mem_flatMap,
    List.mem_singleton] at h
  rcases h with rfl | ⟨p, -, hp⟩ | rfl
  · decide
  · exact isPrintable_of_mem_escapePiece hp
  · decide

/-- The plain space is the only printable character that is blank. -/
theorem eq_space_of_isBlank {c : Char} (hblank : isBlank c = true)
    (hprintable : isPrintable c = true) : c = ' ' := by
  have hall : ∀ range ∈ blankRanges, ∀ n ∈ List.range' range.1 (range.2 + 1 - range.1),
      isPrintable (Char.ofNat n) = true → n = 0x20 := by
    decide +kernel
  obtain ⟨range, hrange, hin⟩ := List.any_eq_true.mp hblank
  rw [Bool.and_eq_true, decide_eq_true_eq, decide_eq_true_eq] at hin
  have hmem : c.toNat ∈ List.range' range.1 (range.2 + 1 - range.1) :=
    List.mem_range'_1.mpr (by omega)
  have hspace := hall range hrange c.toNat hmem (by rwa [Char.ofNat_toNat])
  rw [← Char.ofNat_toNat c, hspace]

theorem eq_char_of_escapePiece {p : Piece} {c : Char} (h : escapePiece p = [c]) : p = .char c := by
  cases p with
  | stray b => cases h
  | char c' =>
    change escapeChar c' = [c] at h
    unfold escapeChar at h
    split at h
    · cases h
    split at h
    · rw [(List.cons.inj h).1]
    split at h
    case h_8 =>
      split at h
      · cases h
      split at h
      · cases h
      · cases h
    all_goals cases h

/-- A mark in quoted text stands for itself. -/
theorem eq_char_of_mark {p : Piece} {q : Char} (hq : isMark q = true) (h : q ∈ escapePiece p) :
    p = .char q ∧ escapePiece p = [q] := by
  generalize hcs : escapePiece p = cs at h
  have hstands := stands_escapePiece p
  rw [hcs] at hstands
  cases hstands with
  | self hprintable hquote hslash hbytes =>
    obtain rfl := List.mem_singleton.mp h
    exact ⟨eq_char_of_escapePiece hcs, rfl⟩
  | escape hchars hread =>
    rcases List.mem_cons.mp h with rfl | hmem
    · cases hq
    · have hnot := (Bool.and_eq_true_iff.mp (hchars q hmem)).2
      rw [hq] at hnot
      cases hnot

/-- Quoted text is cut at a mark between two pieces. -/
theorem split_at_mark {ps : List Piece} {q : Char} {front back : List Char}
    (hq : isMark q = true) (h : quoted ps = front ++ q :: back) :
    ∃ before after, ps = before ++ .char q :: after ∧ front = before.flatMap escapePiece := by
  induction ps generalizing front with
  | nil =>
    have hmem : q ∈ ['"'] := by
      change ['"'] = _ at h
      rw [h]
      exact List.mem_append_right _ List.mem_cons_self
    rw [List.mem_singleton.mp hmem] at hq
    cases hq
  | cons p ps ih =>
    rw [quoted_cons] at h
    obtain ⟨front', rfl, hrest⟩ | ⟨cut, hcut, hrest⟩ := List.append_eq_append_iff.mp h
    · obtain ⟨before, after, rfl, rfl⟩ := ih hrest
      exact ⟨p :: before, after, rfl, rfl⟩
    · cases cut with
      | nil =>
        rw [List.append_nil] at hcut
        obtain ⟨before, after, rfl, hbefore⟩ := @ih [] hrest.symm
        refine ⟨p :: before, after, rfl, ?_⟩
        rw [List.flatMap_cons, ← hbefore, List.append_nil, hcut]
      | cons c cut =>
        obtain ⟨rfl, -⟩ := List.cons.inj hrest
        obtain ⟨rfl, hself⟩ := eq_char_of_mark hq
          (show q ∈ escapePiece p by rw [hcut]; exact List.mem_append_right _ List.mem_cons_self)
        rw [hself] at hcut
        have hfront : front = [] := by
          cases front with
          | nil => rfl
          | cons f front => cases front <;> cases hcut
        exact ⟨[], ps, rfl, hfront⟩

/-! ## Text that reads as something else -/

theorem bytesOf_ne_nil (p : Piece) : bytesOf p ≠ [] := by
  cases p with
  | char c => exact String.utf8EncodeChar_ne_nil
  | stray b => exact List.cons_ne_nil b []

theorem le_of_head_utf8EncodeChar {c : Char} {b : UInt8} (hc : 0x80 ≤ c.toNat)
    (h : (String.utf8EncodeChar c).head? = some b) : 0x80 ≤ b.toNat := by
  change 0x80 ≤ c.val.toNat at hc
  unfold String.utf8EncodeChar at h
  rw [if_neg (by omega)] at h
  split at h
  · obtain rfl := Option.some.inj h
    rw [UInt8.toNat_ofNat']
    omega
  split at h
  · obtain rfl := Option.some.inj h
    rw [UInt8.toNat_ofNat']
    omega
  · obtain rfl := Option.some.inj h
    rw [UInt8.toNat_ofNat']
    omega

/-- A piece that begins with the byte of a character of one byte is that character. -/
theorem eq_char_of_head {p : Piece} (hp : Regular p) {c : Char} (hc : c.toNat < 0x80)
    (h : (bytesOf p).head? = (bytesOf (.char c)).head?) : p = .char c := by
  have hbyte {d : Char} (hd : d.toNat < 0x80) : (UInt8.ofNat d.toNat).toNat = d.toNat :=
    UInt8.toNat_ofNat_of_lt' (Nat.lt_trans hd (by decide))
  have hhead : (bytesOf p).head? = some (UInt8.ofNat c.toNat) := by
    rw [h, bytesOf, utf8EncodeChar_one hc, List.head?_cons]
  cases p with
  | stray b =>
    obtain rfl := Option.some.inj hhead
    change 0x80 ≤ (UInt8.ofNat c.toNat).toNat at hp
    rw [hbyte hc] at hp
    omega
  | char d =>
    by_cases hd : d.toNat < 0x80
    · rw [bytesOf, utf8EncodeChar_one hd] at hhead
      have heq := congrArg UInt8.toNat (Option.some.inj hhead)
      rw [hbyte hd, hbyte hc] at heq
      rw [Char.toNat_inj.mp heq]
    · have hlow := le_of_head_utf8EncodeChar (Nat.not_lt.mp hd) hhead
      rw [hbyte hc] at hlow
      omega

/-- What has been read is not taken back. -/
theorem prefix_of_bodyBytes {skip : Nat} {cs : List Char} {acc bytes : List UInt8}
    (h : bodyBytes skip cs acc = some bytes) : acc.reverse <+: bytes := by
  induction cs generalizing skip acc with
  | nil =>
    rw [bodyBytes] at h
    cases h
  | cons c cs ih =>
    have hmore {more : List UInt8} (hkept : (more ++ acc).reverse <+: bytes) :
        acc.reverse <+: bytes := by
      rw [List.reverse_append] at hkept
      exact (List.prefix_append _ _).trans hkept
    cases skip with
    | succ k =>
      rw [bodyBytes] at h
      exact ih h
    | zero =>
      rw [bodyBytes] at h
      split at h
      · split at h
        · cases h
          exact List.prefix_rfl
        · cases h
      split at h
      · cases h
      split at h
      · split at h
        · exact hmore (ih h)
        · cases h
      · exact hmore (ih h)

/-- The text after an opening quote goes astray from some pieces: it is their quoted form up to a
place where it ends, is closed before all the pieces have come, or goes on with a piece that begins
with another byte. -/
inductive Astray : List Piece → List Char → Prop
  | ended {ps : List Piece} : Astray ps []
  | closed {p : Piece} {ps : List Piece} {rest : List Char} : Astray (p :: ps) ('"' :: rest)
  | other {p q : Piece} {ps : List Piece} {rest : List Char}
    (h : (bytesOf q).head? ≠ (bytesOf p).head?) : Astray (p :: ps) (escapePiece q ++ rest)
  | further {p : Piece} {ps : List Piece} {rest : List Char} (h : Astray ps rest) :
    Astray (p :: ps) (escapePiece p ++ rest)

theorem Astray.bodyBytes_ne {ps : List Piece} {cs : List Char} (h : Astray ps cs)
    (acc : List UInt8) : bodyBytes 0 cs acc ≠ some (acc.reverse ++ ps.flatMap bytesOf) := by
  induction h generalizing acc with
  | ended =>
    rw [bodyBytes]
    exact nofun
  | @closed p ps rest =>
    rw [bodyBytes, if_pos rfl, List.flatMap_cons]
    split
    · intro heq
      have hnil := List.self_eq_append_right.mp (Option.some.inj heq)
      exact bytesOf_ne_nil p (List.append_eq_nil_iff.mp hnil).1
    · exact nofun
  | @other p q ps rest hhead =>
    intro heq
    rw [(stands_escapePiece q).bodyBytes] at heq
    have hkept := prefix_of_bodyBytes heq
    rw [List.reverse_append, List.reverse_reverse, List.prefix_append_right_inj,
      List.flatMap_cons] at hkept
    cases hp : bytesOf p with
    | nil => exact bytesOf_ne_nil p hp
    | cons b bs =>
      cases hq : bytesOf q with
      | nil => exact bytesOf_ne_nil q hq
      | cons c cs =>
        rw [hp, hq, List.cons_append, List.cons_prefix_cons] at hkept
        rw [hp, hq, hkept.1] at hhead
        exact hhead rfl
  | @further p ps rest h ih =>
    have hrest := ih ((bytesOf p).reverse ++ acc)
    rw [List.reverse_append, List.reverse_reverse, List.append_assoc] at hrest
    rw [(stands_escapePiece p).bodyBytes, List.flatMap_cons]
    exact hrest

/-- Text that goes astray from the pieces of a byte string does not stand for it. -/
theorem Astray.decode_ne {bytes : List UInt8} {cs : List Char} (h : Astray (pieces bytes) cs) :
    decode ('"' :: cs) ≠ some bytes := by
  have hne := h.bodyBytes_ne []
  rw [flatMap_pieces] at hne
  exact hne

end TaskMachine.Quoting
