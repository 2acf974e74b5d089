import Mathlib.Data.List.Sort
import TaskMachine.Table

/-!
# Tables are known by their values

An entry put into a table is found under its name, and all other names keep
their values. The entries of a table stay in ascending order, so that a table is
known by the values of all names: in which order they were set, and how often,
does not show.
-/

namespace TaskMachine.Tables

variable {α : Type}

theorem lookup_cons_eq_ite (name key : String) (value : α) (rest : List (String × α)) :
    ((name, value) :: rest).lookup key = if key = name then some value else rest.lookup key := by
  rw [List.lookup_cons]
  by_cases hkey : key = name
  · rw [if_pos hkey, beq_iff_eq.mpr hkey]
  · rw [if_neg hkey, beq_eq_false_iff_ne.mpr hkey]

theorem lookup_place (name key : String) (value : α) (entries : List (String × α)) :
    (Table.place name value entries).lookup key =
      if key = name then some value else entries.lookup key := by
  induction entries with
  | nil => exact lookup_cons_eq_ite name key value []
  | cons entry rest ih =>
    obtain ⟨n, v⟩ := entry
    rw [Table.place, lookup_cons_eq_ite]
    split
    · rename_i hn
      subst hn
      rw [lookup_cons_eq_ite]
      split <;> rfl
    · rename_i hn
      split
      · rw [lookup_cons_eq_ite, lookup_cons_eq_ite]
      · rw [lookup_cons_eq_ite, ih]
        by_cases hkey : key = name
        · rw [if_pos hkey, if_pos hkey, if_neg (hkey ▸ hn)]
        · rw [if_neg hkey, if_neg hkey]

theorem find?_insert (t : Table α) (name key : String) (value : α) :
    (t.insert name value).find? key = if key = name then some value else t.find? key :=
  lookup_place name key value t.entries

theorem isSome_find?_insertAll {t : Table α} {name : String}
    (h : (t.find? name).isSome = true) (entries : List (String × α)) :
    ((t.insertAll entries).find? name).isSome = true := by
  induction entries generalizing t with
  | nil => exact h
  | cons entry entries ih =>
    refine ih ?_
    rw [find?_insert]
    split
    · rfl
    · exact h

/-! ## Ascending entries -/

/-- One entry stands before the other. -/
def Before (d e : String × α) : Prop := d.1 < e.1

/-- The entries stand in the order of their names, each name once. -/
def Ascending (t : Table α) : Prop := t.entries.Pairwise Before

theorem mem_place {name : String} {value : α} {entries : List (String × α)} {e : String × α}
    (h : e ∈ Table.place name value entries) : e = (name, value) ∨ e ∈ entries := by
  induction entries with
  | nil => exact .inl (List.mem_singleton.mp h)
  | cons d rest ih =>
    unfold Table.place at h
    split at h
    · exact (List.mem_cons.mp h).imp_right (List.mem_cons_of_mem d)
    split at h
    · exact List.mem_cons.mp h
    · rcases List.mem_cons.mp h with rfl | h
      · exact .inr List.mem_cons_self
      · exact (ih h).imp_right (List.mem_cons_of_mem d)

theorem pairwise_place (name : String) (value : α) {entries : List (String × α)}
    (h : entries.Pairwise Before) : (Table.place name value entries).Pairwise Before := by
  induction entries with
  | nil => exact List.pairwise_singleton _ _
  | cons entry rest ih =>
    obtain ⟨n, v⟩ := entry
    obtain ⟨hfirst, hrest⟩ := List.pairwise_cons.mp h
    unfold Table.place
    split
    · rename_i hname
      exact List.pairwise_cons.mpr ⟨fun e he => hname ▸ hfirst e he, hrest⟩
    · rename_i hname
      split
      · rename_i hlt
        refine List.pairwise_cons.mpr ⟨fun e he => ?_, h⟩
        rcases List.mem_cons.mp he with rfl | he
        · exact hlt
        · exact String.lt_trans hlt (hfirst e he)
      · rename_i hnot
        have hgt : n < name := by
          refine Decidable.byContradiction fun hle => hname ?_
          exact String.le_antisymm (String.not_lt.mp hle) (String.not_lt.mp hnot)
        refine List.pairwise_cons.mpr ⟨fun e he => ?_, ih hrest⟩
        rcases mem_place he with rfl | he
        · exact hgt
        · exact hfirst e he

theorem Ascending.insert {t : Table α} (h : Ascending t) (name : String) (value : α) :
    Ascending (t.insert name value) :=
  pairwise_place name value h

theorem mem_iff_lookup {entries : List (String × α)} (h : entries.Pairwise Before) (name : String)
    (value : α) : (name, value) ∈ entries ↔ entries.lookup name = some value := by
  induction entries with
  | nil => simp
  | cons entry rest ih =>
    obtain ⟨n, v⟩ := entry
    obtain ⟨hfirst, hrest⟩ := List.pairwise_cons.mp h
    rw [lookup_cons_eq_ite, List.mem_cons]
    by_cases hname : name = n
    · -- No later entry has the name of the first.
      subst hname
      have hlater : (name, value) ∉ rest := fun hmem => String.lt_irrefl name (hfirst _ hmem)
      simp [hlater, eq_comm]
    · simp [hname, ih hrest]

/-- A table is known by the values of all names. -/
theorem eq_of_find? {t u : Table α} (ht : Ascending t) (hu : Ascending u)
    (h : ∀ name, t.find? name = u.find? name) : t = u := by
  have hirrefl : Std.Irrefl (@Before α) := ⟨fun e => String.lt_irrefl e.1⟩
  have hantisymm : Std.Antisymm (@Before α) :=
    ⟨fun d e hde hed => absurd hed (String.lt_asymm hde)⟩
  have hentries : t.entries = u.entries := by
    refine List.Pairwise.eq_of_mem_iff ht hu fun e => ?_
    rw [mem_iff_lookup ht, mem_iff_lookup hu]
    exact iff_of_eq (congrArg (· = some e.2) (h e.1))
  cases t
  cases u
  exact congrArg Table.mk hentries

end TaskMachine.Tables
