/-!
# Lists of named things

Sorted tables of names with a payload each, such as the members of an object or the variables of a process.
-/

namespace DualShell.Named

/-- Give a name a payload in a table sorted by name. -/
def insert {α : Type} (name : String) (value : α) : List (String × α) → List (String × α)
  | [] => [(name, value)]
  | (n, v) :: rest =>
    if name == n then (name, value) :: rest
    else if name < n then (name, value) :: (n, v) :: rest
    else (n, v) :: insert name value rest

/-- The table of a list of entries, the last of each name. -/
def ofList {α : Type} (entries : List (String × α)) : List (String × α) :=
  entries.foldl (fun table e => insert e.1 e.2 table) []

/-- The payload of a name. -/
def get? {α : Type} (table : List (String × α)) (name : String) : Option α :=
  (table.find? (·.1 == name)).map (·.2)

/-- The table without a name. -/
def erase {α : Type} (table : List (String × α)) (name : String) : List (String × α) :=
  table.filter (·.1 != name)

/-- The entries of a table after an insertion were there before it, or are the new one. -/
theorem mem_insert {α : Type} {name : String} {value : α} {table : List (String × α)} {e : String × α}
    (h : e ∈ insert name value table) : e = (name, value) ∨ e ∈ table := by
  induction table with
  | nil => exact .inl (List.mem_singleton.1 h)
  | cons entry rest ih =>
    unfold insert at h
    split at h
    · rcases List.mem_cons.1 h with h | h
      · exact .inl h
      · exact .inr (List.mem_cons_of_mem _ h)
    · split at h
      · exact List.mem_cons.1 h
      · rcases List.mem_cons.1 h with rfl | h
        · exact .inr List.mem_cons_self
        · exact (ih h).imp_right (List.mem_cons_of_mem _)

/-- A table holds only entries it was made of. -/
theorem mem_of_mem_ofList {α : Type} {entries : List (String × α)} {e : String × α} (h : e ∈ ofList entries) :
    e ∈ entries := by
  suffices hfold : ∀ table : List (String × α), e ∈ entries.foldl (fun table e => insert e.1 e.2 table) table →
      e ∈ entries ∨ e ∈ table from (hfold [] h).resolve_right (by simp)
  clear h
  induction entries with
  | nil => exact fun table h => .inr h
  | cons entry rest ih =>
    intro table h
    rcases ih _ h with h | h
    · exact .inl (List.mem_cons_of_mem _ h)
    · refine (mem_insert h).imp_left fun he => ?_
      rw [he]
      exact List.mem_cons_self

theorem get?_insert_self {α : Type} {name : String} (value : α) (table : List (String × α)) :
    get? (insert name value table) name = some value := by
  induction table with
  | nil => simp [insert, get?]
  | cons entry rest ih =>
    unfold insert
    split
    · simp [get?]
    · rename_i hne
      split
      · simp [get?]
      · have hne' : ¬entry.1 = name := fun heq => hne (by simp [heq])
        simpa [get?, hne'] using ih

theorem get?_insert_ne {α : Type} {name n : String} (h : n ≠ name) (value : α) (table : List (String × α)) :
    get? (insert name value table) n = get? table n := by
  induction table with
  | nil => simp [insert, get?, h.symm]
  | cons entry rest ih =>
    unfold insert
    split
    · rename_i heq
      have heq : name = entry.1 := by simpa using heq
      simp [get?, h.symm, ← heq]
    · split
      · simp [get?, h.symm]
      · by_cases hn : entry.1 = n
        · simp [get?, hn]
        · simpa [get?, hn] using ih

/-- Names in order, each once. -/
def sortNames (names : List String) : List String :=
  (ofList (names.map fun n => (n, ()))).map (·.1)

end DualShell.Named
