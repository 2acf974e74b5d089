/-!
# Byte arrays in pages

An array of bytes of a fixed size that starts out as zeros. It is kept in pages,
and a page takes space only once it is written, so that a large array of which
little is used costs little. `get` is the view of it: `get_set`, `get_fill` and
`get_copyWithin` say what writing does to every position.
-/

namespace TaskMachine

/-- The bytes of a page. -/
def pageSize : Nat := 4096

/-- An array of `size` bytes. What a page is too short to hold is zero. -/
structure Bytes where
  size : Nat
  pages : Array (Array UInt8)
  fits : size ≤ pages.size * pageSize
  deriving DecidableEq, Repr

namespace Bytes

/-- An array of zeros. -/
def zeros (size : Nat) : Bytes where
  size
  pages := Array.replicate (size / pageSize + 1) #[]
  fits := by
    simp only [Array.size_replicate, pageSize]
    omega

/-- The byte at a position; positions past the end read as zero. -/
def get (b : Bytes) (i : Nat) : UInt8 := (b.pages.getD (i / pageSize) #[]).getD (i % pageSize) 0

/-- What is made of four bytes in a row. Inside one page it is looked up once. -/
@[inline]
def four {α : Type} (b : Bytes) (i : Nat) (make : UInt8 → UInt8 → UInt8 → UInt8 → α) : α :=
  let k := i % pageSize
  if k + 3 < pageSize then
    let page := b.pages.getD (i / pageSize) #[]
    make (page.getD k 0) (page.getD (k + 1) 0) (page.getD (k + 2) 0) (page.getD (k + 3) 0)
  else make (b.get i) (b.get (i + 1)) (b.get (i + 2)) (b.get (i + 3))

/-- A page of full length. -/
def fullPage (page : Array UInt8) : Array UInt8 :=
  if page.size = pageSize then page else Array.ofFn fun k : Fin pageSize => page.getD k.val 0

/-- A page with one byte written. -/
def setInPage (page : Array UInt8) (k : Nat) (v : UInt8) : Array UInt8 :=
  (fullPage page).setIfInBounds k v

/-- The array with a byte written; positions past the end are left alone. -/
def set (b : Bytes) (i : Nat) (v : UInt8) : Bytes :=
  if i < b.size then
    { b with
      pages := b.pages.modify (i / pageSize) fun page => setInPage page (i % pageSize) v
      fits := by
        rw [Array.size_modify]
        exact b.fits }
  else b

/-- The array with bytes written from a position on. -/
def setAll : Bytes → Nat → List UInt8 → Bytes
  | b, _, [] => b
  | b, i, v :: vs => setAll (b.set i v) (i + 1) vs

/-- The bytes from a position on. -/
def slice (b : Bytes) (i count : Nat) : List UInt8 := (List.range' i count).map b.get

/-- Pages of which so many from one on are replaced. -/
def replacePages (new : Nat → Array UInt8) :
    Nat → Nat → Array (Array UInt8) → Array (Array UInt8)
  | 0, _, pages => pages
  | n + 1, p, pages => replacePages new n (p + 1) (pages.setIfInBounds p (new p))

theorem size_replacePages (new : Nat → Array UInt8) (n p : Nat) (pages : Array (Array UInt8)) :
    (replacePages new n p pages).size = pages.size := by
  induction n generalizing p pages with
  | zero => rfl
  | succ n ih => rw [replacePages, ih, Array.size_setIfInBounds]

/-- A page with new bytes at the positions of a range, some of which it has. Inside the range
`whole?` may give all of the page. -/
def rangePage (b : Bytes) (start count : Nat) (byte : Nat → UInt8)
    (whole? : Nat → Option (Array UInt8)) (p : Nat) : Array UInt8 :=
  let inside := start ≤ p * pageSize ∧ (p + 1) * pageSize ≤ start + count
  match if inside then whole? p else none with
  | some page => page
  | none =>
    Array.ofFn fun k : Fin pageSize =>
      let j := p * pageSize + k.val
      if start ≤ j ∧ j < start + count then byte j else b.get j

/-- The array with new bytes at the positions of a range. -/
def overwrite (b : Bytes) (start count : Nat) (byte : Nat → UInt8)
    (whole? : Nat → Option (Array UInt8)) : Bytes :=
  if count = 0 then b
  else
    let first := start / pageSize
    let touched := (start + count - 1) / pageSize - first + 1
    { b with
      pages := replacePages (rangePage b start count byte whole?) touched first b.pages
      fits := by
        rw [size_replacePages]
        exact b.fits }

/-- A page that holds one value throughout. -/
def evenPage (v : UInt8) : Array UInt8 := if v = 0 then #[] else Array.replicate pageSize v

/-- The array with one value at `count` positions from one on. Few bytes are written one by one,
and many in pages. -/
def fill (b : Bytes) (start count : Nat) (v : UInt8) : Bytes :=
  if count < pageSize then b.setAll start (List.replicate count v)
  else
    let page := evenPage v
    b.overwrite start count (fun _ => v) fun _ => some page

/-- The page of what starts at a position, if it is at hand: as a page of the array, or because
nothing was written there. -/
def pageAt? (b : Bytes) (i : Nat) : Option (Array UInt8) :=
  let page (p : Nat) : Array UInt8 := b.pages.getD p #[]
  if i % pageSize = 0 then some (page (i / pageSize))
  else if (page (i / pageSize)).isEmpty ∧ (page (i / pageSize + 1)).isEmpty then some #[]
  else none

/-- The array with `count` bytes copied from one position on to another, as if through a buffer. -/
def copyWithin (b : Bytes) (dst src count : Nat) : Bytes :=
  if count < pageSize then b.setAll dst (b.slice src count)
  else
    b.overwrite dst count (fun j => b.get (j - dst + src))
      fun p => b.pageAt? (p * pageSize - dst + src)

/-- Four bytes in a row are the bytes at their positions. -/
theorem four_eq {α : Type} (b : Bytes) (i : Nat) (make : UInt8 → UInt8 → UInt8 → UInt8 → α) :
    b.four i make = make (b.get i) (b.get (i + 1)) (b.get (i + 2)) (b.get (i + 3)) := by
  unfold four
  dsimp only
  split
  · rename_i h
    have hq (d : Nat) (hd : d ≤ 3) : (i + d) / pageSize = i / pageSize := by
      unfold pageSize at h ⊢
      omega
    have hr (d : Nat) (hd : d ≤ 3) : (i + d) % pageSize = i % pageSize + d := by
      unfold pageSize at h ⊢
      omega
    simp only [get, hq 1 (by decide), hq 2 (by decide), hq 3 (by decide), hr 1 (by decide),
      hr 2 (by decide), hr 3 (by decide)]
  · rfl

@[simp]
theorem size_zeros (size : Nat) : (zeros size).size = size := rfl

@[simp]
theorem size_set (b : Bytes) (i : Nat) (v : UInt8) : (b.set i v).size = b.size := by
  unfold set
  split <;> rfl

@[simp]
theorem size_setAll (b : Bytes) (i : Nat) (vs : List UInt8) : (b.setAll i vs).size = b.size := by
  induction vs generalizing b i with
  | nil => rfl
  | cons v vs ih => rw [setAll, ih, size_set]

@[simp]
theorem get_zeros (size i : Nat) : (zeros size).get i = 0 := by
  simp only [get, zeros, Array.getD_eq_getD_getElem?, Array.getElem?_replicate]
  split <;> simp

/-- Making a page full does not change what it holds. -/
theorem getD_fullPage (page : Array UInt8) (k : Nat) (h : k < pageSize) :
    (fullPage page).getD k 0 = page.getD k 0 := by
  unfold fullPage
  split
  · rfl
  · simp [Array.getD_eq_getD_getElem?, h]

theorem size_fullPage (page : Array UInt8) : (fullPage page).size = pageSize := by
  unfold fullPage
  split
  · assumption
  · simp

theorem getD_setInPage (page : Array UInt8) (k j : Nat) (v : UInt8) (hj : j < pageSize) :
    (setInPage page k v).getD j 0 = if k = j then v else page.getD j 0 := by
  unfold setInPage
  rw [Array.getD_eq_getD_getElem?, Array.getElem?_setIfInBounds, size_fullPage]
  by_cases h : k = j
  · simp [h, hj]
  · simp only [h, if_false]
    rw [← Array.getD_eq_getD_getElem?]
    exact getD_fullPage page j hj

/-- Changing a page leaves the others alone. -/
theorem getD_modify (pages : Array (Array UInt8)) (n m : Nat) (f : Array UInt8 → Array UInt8)
    (h : n < pages.size) :
    (pages.modify n f).getD m #[] = if n = m then f (pages.getD m #[]) else pages.getD m #[] := by
  simp only [Array.getD_eq_getD_getElem?, Array.getElem?_modify]
  by_cases e : n = m
  · subst e
    simp [Array.getElem?_eq_getElem h]
  · simp [e]

/-- A write changes the byte at its position and no other. -/
theorem get_set (b : Bytes) (i j : Nat) (v : UInt8) (h : i < b.size) :
    (b.set i v).get j = if i = j then v else b.get j := by
  have hj : j % pageSize < pageSize := Nat.mod_lt j (by decide)
  have hpage : i / pageSize < b.pages.size :=
    Nat.div_lt_of_lt_mul (by rw [Nat.mul_comm]; exact Nat.lt_of_lt_of_le h b.fits)
  simp only [set, if_pos h, get]
  rw [getD_modify _ _ _ _ hpage]
  by_cases hq : i / pageSize = j / pageSize
  · rw [if_pos hq, getD_setInPage _ _ _ _ hj]
    by_cases hr : i % pageSize = j % pageSize
    · have hij : i = j := by rw [← Nat.div_add_mod i pageSize, hq, hr, Nat.div_add_mod]
      rw [if_pos hr, if_pos hij]
    · have hij : i ≠ j := fun e => hr (by rw [e])
      rw [if_neg hr, if_neg hij]
  · have hij : i ≠ j := fun e => hq (by rw [e])
    rw [if_neg hq, if_neg hij]

/-- Writing bytes one after the other changes those of their range and no others. -/
theorem get_setAll (b : Bytes) (i j : Nat) (vs : List UInt8) (h : i + vs.length ≤ b.size) :
    (b.setAll i vs).get j = if i ≤ j then vs[j - i]?.getD (b.get j) else b.get j := by
  induction vs generalizing b i with
  | nil => simp [setAll]
  | cons v vs ih =>
    rw [List.length_cons] at h
    rw [setAll, ih _ _ (by rw [size_set]; omega), get_set _ _ _ _ (by omega)]
    by_cases hij : i = j
    · subst hij
      rw [if_neg (by omega), if_pos rfl, if_pos (Nat.le_refl i), Nat.sub_self]
      rfl
    · by_cases hlt : i < j
      · obtain ⟨d, hd⟩ : ∃ d, j - i = d + 1 := ⟨j - i - 1, by omega⟩
        rw [if_pos (by omega), if_neg hij, if_pos (by omega), hd, List.getElem?_cons_succ,
          show j - (i + 1) = d by omega]
      · rw [if_neg (by omega), if_neg hij, if_neg (by omega)]

@[simp]
theorem size_overwrite (b : Bytes) (start count : Nat) (byte : Nat → UInt8)
    (whole? : Nat → Option (Array UInt8)) :
    (b.overwrite start count byte whole?).size = b.size := by
  unfold overwrite
  split <;> rfl

@[simp]
theorem size_fill (b : Bytes) (start count : Nat) (v : UInt8) :
    (b.fill start count v).size = b.size := by
  unfold fill
  split <;> simp

@[simp]
theorem size_copyWithin (b : Bytes) (dst src count : Nat) :
    (b.copyWithin dst src count).size = b.size := by
  unfold copyWithin
  split <;> simp

theorem getD_replacePages (new : Nat → Array UInt8) (n p q : Nat) (pages : Array (Array UInt8))
    (h : p + n ≤ pages.size) :
    (replacePages new n p pages).getD q #[] =
      if p ≤ q ∧ q < p + n then new q else pages.getD q #[] := by
  induction n generalizing p pages with
  | zero => rw [replacePages, if_neg (by omega)]
  | succ n ih =>
    rw [replacePages, ih (p + 1) _ (by rw [Array.size_setIfInBounds]; omega)]
    by_cases hq : p = q
    · subst hq
      rw [if_neg (by omega), if_pos (by omega)]
      simp [Array.getD_eq_getD_getElem?, show p < pages.size by omega]
    · by_cases hr : p + 1 ≤ q ∧ q < p + 1 + n
      · rw [if_pos hr, if_pos (by omega)]
      · rw [if_neg hr, if_neg (by omega)]
        simp [Array.getD_eq_getD_getElem?, Array.getElem?_setIfInBounds_ne hq]

theorem getD_rangePage (b : Bytes) (start count : Nat) (byte : Nat → UInt8)
    (whole? : Nat → Option (Array UInt8)) (p k : Nat) (hk : k < pageSize)
    (hwhole : ∀ page, whole? p = some page → start ≤ p * pageSize → page.getD k 0 =
      byte (p * pageSize + k)) :
    (rangePage b start count byte whole? p).getD k 0 =
      if start ≤ p * pageSize + k ∧ p * pageSize + k < start + count then byte (p * pageSize + k)
      else b.get (p * pageSize + k) := by
  unfold rangePage
  dsimp only
  split
  · rename_i page h
    split at h
    · rename_i inside
      rw [Nat.succ_mul] at inside
      rw [hwhole page h inside.1, if_pos (by omega)]
    · cases h
  · simp [Array.getD_eq_getD_getElem?, hk]

/-- Bytes outside a range stay, and those inside are new. -/
theorem get_overwrite (b : Bytes) (start count : Nat) (byte : Nat → UInt8)
    (whole? : Nat → Option (Array UInt8)) (j : Nat) (h : start + count ≤ b.size)
    (hwhole : ∀ p page k, whole? p = some page → start ≤ p * pageSize → k < pageSize →
      page.getD k 0 = byte (p * pageSize + k)) :
    (b.overwrite start count byte whole?).get j =
      if start ≤ j ∧ j < start + count then byte j else b.get j := by
  have hk : j % pageSize < pageSize := Nat.mod_lt j (by decide)
  have hj : j / pageSize * pageSize + j % pageSize = j := by
    rw [Nat.mul_comm]
    exact Nat.div_add_mod j pageSize
  by_cases hc : count = 0
  · rw [overwrite, if_pos hc, if_neg (by omega)]
  have hle : start / pageSize ≤ (start + count - 1) / pageSize := Nat.div_le_div_right (by omega)
  have hlast : (start + count - 1) / pageSize < b.pages.size :=
    Nat.div_lt_of_lt_mul (by rw [Nat.mul_comm]; have := b.fits; omega)
  rw [overwrite, if_neg hc, get]
  dsimp only
  rw [getD_replacePages _ _ _ _ _ (by omega)]
  split
  · rw [getD_rangePage _ _ _ _ _ _ _ hk fun page hp hs => hwhole _ page _ hp hs hk, hj]
  · rename_i hpage
    rw [if_neg]
    · rfl
    · intro hin
      have h1 : start / pageSize ≤ j / pageSize := Nat.div_le_div_right hin.1
      have h2 : j / pageSize ≤ (start + count - 1) / pageSize := Nat.div_le_div_right (by omega)
      omega

theorem getD_evenPage (v : UInt8) (k : Nat) (hk : k < pageSize) : (evenPage v).getD k 0 = v := by
  unfold evenPage
  split
  · rename_i h
    simp [h]
  · simp [Array.getD_eq_getD_getElem?, hk]

/-- Filling sets the bytes of its range and no others. -/
theorem get_fill (b : Bytes) (start count j : Nat) (v : UInt8) (h : start + count ≤ b.size) :
    (b.fill start count v).get j = if start ≤ j ∧ j < start + count then v else b.get j := by
  unfold fill
  split
  · rw [get_setAll _ _ _ _ (by simpa using h), List.getElem?_replicate]
    by_cases hj : start ≤ j
    · by_cases hc : j - start < count
      · rw [if_pos hj, if_pos hc, if_pos (by omega)]
        rfl
      · rw [if_pos hj, if_neg hc, if_neg (by omega)]
        rfl
    · rw [if_neg hj, if_neg (by omega)]
  · refine get_overwrite b start count _ _ j h fun p page k hp _ hk => ?_
    cases hp
    exact getD_evenPage v k hk

theorem getD_pageAt? (b : Bytes) {i k : Nat} {page : Array UInt8} (h : b.pageAt? i = some page)
    (hk : k < pageSize) : page.getD k 0 = b.get (i + k) := by
  unfold pageAt? at h
  dsimp only at h
  split at h
  · rename_i h0
    cases h
    have hq : (i + k) / pageSize = i / pageSize := by
      unfold pageSize at h0 hk ⊢
      omega
    have hr : (i + k) % pageSize = k := by
      unfold pageSize at h0 hk ⊢
      omega
    rw [get, hq, hr]
  split at h
  · rename_i hempty
    cases h
    have hq : (i + k) / pageSize = i / pageSize ∨ (i + k) / pageSize = i / pageSize + 1 := by
      unfold pageSize at hk ⊢
      omega
    rw [Array.isEmpty_iff, Array.isEmpty_iff] at hempty
    rcases hq with hq | hq
    · rw [get, hq, hempty.1]
      rfl
    · rw [get, hq, hempty.2]
      rfl
  · cases h

/-- Copying puts the old bytes of one range into another and changes no others. -/
theorem get_copyWithin (b : Bytes) (dst src count j : Nat) (h : dst + count ≤ b.size) :
    (b.copyWithin dst src count).get j =
      if dst ≤ j ∧ j < dst + count then b.get (j - dst + src) else b.get j := by
  unfold copyWithin
  split
  · rw [get_setAll _ _ _ _ (by simpa [slice] using h), slice, List.getElem?_map]
    by_cases hj : dst ≤ j
    · by_cases hc : j - dst < count
      · rw [if_pos hj, List.getElem?_range' hc, if_pos (by omega)]
        simp [Nat.add_comm]
      · rw [if_pos hj, List.getElem?_eq_none (by simpa using hc), if_neg (by omega)]
        rfl
    · rw [if_neg hj, if_neg (by omega)]
  · refine get_overwrite b dst count _ _ j h fun p page k hp hdst hk => ?_
    rw [getD_pageAt? b hp hk]
    congr 1
    omega

end Bytes

end TaskMachine
