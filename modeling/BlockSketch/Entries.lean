/-!
Named entries in order.  Fields, slots and object members are all kept the same
way: a list of names with what belongs to them, in the order in which the names
first appeared.  Writing to a name that is there keeps its place.
-/

namespace BlockSketch

/-- Names and what belongs to them, in order of first appearance. -/
abbrev Entries (α : Type) := List (String × α)

namespace Entries

variable {α β : Type}

def get? (entries : Entries α) (name : String) : Option α :=
  entries.lookup name

def names (entries : Entries α) : List String :=
  entries.map Prod.fst

/-- Writes to a name: in its place if it is there, at the end otherwise. -/
def insert (entries : Entries α) (name : String) (value : α) : Entries α :=
  match entries with
  | [] => [(name, value)]
  | (k, v) :: rest =>
    if k = name then (k, value) :: rest else (k, v) :: insert rest name value

/-- Entries written one after the other: a name that comes again keeps its
first place and its last value. -/
def ofList (pairs : List (String × α)) : Entries α :=
  pairs.foldl (fun entries pair => insert entries pair.1 pair.2) []

/-- Writes to a name in an order by name: before the first larger one. -/
def insertSorted (entries : Entries α) (name : String) (value : α) : Entries α :=
  match entries with
  | [] => [(name, value)]
  | (k, v) :: rest =>
    if k = name then (k, value) :: rest
    else if name < k then (name, value) :: (k, v) :: rest
    else (k, v) :: insertSorted rest name value

/-- Entries in increasing order of their names; of a name that comes more than
once the last value counts. -/
def sorted (pairs : List (String × α)) : Entries α :=
  pairs.foldl (fun entries pair => insertSorted entries pair.1 pair.2) []

def Distinct (entries : Entries α) : Prop :=
  (names entries).Nodup

/-! ### Reading back what was written -/

@[simp] theorem get?_nil (name : String) : get? ([] : Entries α) name = none := rfl

theorem get?_cons (k : String) (v : α) (rest : Entries α) (name : String) :
    get? ((k, v) :: rest) name = if name = k then some v else get? rest name := by
  by_cases h : name = k
  · simp [get?, h]
  · have : (name == k) = false := by simpa using h
    simp [get?, List.lookup_cons, this, h]

@[simp] theorem get?_insert (entries : Entries α) (name other : String) (value : α) :
    get? (insert entries name value) other =
      if other = name then some value else get? entries other := by
  induction entries with
  | nil => simp [insert, get?_cons]
  | cons pair rest ih =>
    obtain ⟨k, v⟩ := pair
    by_cases h : k = name
    · subst h
      by_cases h' : other = k <;> simp [insert, get?_cons, h']
    · by_cases h' : other = k
      · simp [insert, get?_cons, h, h']
      · simp [insert, get?_cons, h, h', ih]

theorem names_insert_of_mem {entries : Entries α} {name : String} {value : α}
    (h : name ∈ names entries) : names (insert entries name value) = names entries := by
  induction entries with
  | nil => simp [names] at h
  | cons pair rest ih =>
    obtain ⟨k, v⟩ := pair
    by_cases hk : k = name
    · simp [insert, names, hk]
    · have : name ∈ names rest := by
        simpa [names, Ne.symm hk] using h
      simpa [insert, names, hk] using ih this

theorem names_insert_of_not_mem {entries : Entries α} {name : String} {value : α}
    (h : name ∉ names entries) :
    insert entries name value = entries ++ [(name, value)] := by
  induction entries with
  | nil => rfl
  | cons pair rest ih =>
    obtain ⟨k, v⟩ := pair
    simp only [names, List.map_cons, List.mem_cons, not_or] at h
    simp [insert, Ne.symm h.1, ih h.2]

/-- Of two values that are written to a name, the first leaves no trace. -/
theorem insert_insert (entries : Entries α) (name : String) (value other : α) :
    insert (insert entries name value) name other = insert entries name other := by
  induction entries with
  | nil => simp [insert]
  | cons pair rest ih =>
    obtain ⟨k, v⟩ := pair
    by_cases h : k = name <;> simp [insert, h, ih]

/-- Writing what is there changes nothing. -/
theorem insert_of_get? {entries : Entries α} {name : String} {value : α}
    (h : get? entries name = some value) : insert entries name value = entries := by
  induction entries with
  | nil => cases h
  | cons pair rest ih =>
    obtain ⟨k, v⟩ := pair
    rw [get?_cons] at h
    by_cases hk : name = k
    · rw [if_pos hk, Option.some_inj] at h
      simp [insert, hk, h]
    · rw [if_neg hk] at h
      simp [insert, Ne.symm hk, ih h]

/-! ### Names that occur once -/

@[simp] theorem names_nil : names ([] : Entries α) = [] := rfl

@[simp] theorem names_cons (k : String) (v : α) (rest : Entries α) :
    names ((k, v) :: rest) = k :: names rest := rfl

@[simp] theorem names_append (entries more : Entries α) :
    names (entries ++ more) = names entries ++ names more :=
  List.map_append

theorem distinct_nil : Distinct ([] : Entries α) :=
  List.nodup_nil

theorem distinct_insert {entries : Entries α} (h : Distinct entries) (name : String) (value : α) :
    Distinct (insert entries name value) := by
  by_cases hm : name ∈ names entries
  · rw [Distinct, names_insert_of_mem hm]
    exact h
  · rw [Distinct, names_insert_of_not_mem hm, names_append, List.nodup_append]
    refine ⟨h, by simp, ?_⟩
    intro k hk l hl hkl
    rw [names_cons, names_nil, List.mem_singleton] at hl
    rw [hkl, hl] at hk
    exact hm hk

theorem distinct_foldl_insert {entries : Entries α} (h : Distinct entries)
    (pairs : List (String × α)) :
    Distinct (pairs.foldl (fun entries pair => insert entries pair.1 pair.2) entries) := by
  induction pairs generalizing entries with
  | nil => exact h
  | cons pair rest ih => exact ih (distinct_insert h pair.1 pair.2)

theorem distinct_ofList (pairs : List (String × α)) : Distinct (ofList pairs) :=
  distinct_foldl_insert distinct_nil pairs

theorem mem_of_mem_insert {entries : Entries α} {name : String} {value : α}
    {entry : String × α} (h : entry ∈ insert entries name value) :
    entry = (name, value) ∨ entry ∈ entries := by
  induction entries with
  | nil => exact .inl (List.mem_singleton.1 h)
  | cons pair rest ih =>
    obtain ⟨k, v⟩ := pair
    unfold insert at h
    split at h
    · rename_i hk
      obtain rfl | h := List.mem_cons.1 h
      · exact .inl (by rw [hk])
      · exact .inr (List.mem_cons_of_mem _ h)
    · obtain rfl | h := List.mem_cons.1 h
      · exact .inr (List.mem_cons_self ..)
      · exact (ih h).imp_right (List.mem_cons_of_mem _)

theorem mem_of_mem_foldl_insert {entries : Entries α} {pairs : List (String × α)}
    {entry : String × α}
    (h : entry ∈ pairs.foldl (fun entries pair => insert entries pair.1 pair.2) entries) :
    entry ∈ entries ∨ entry ∈ pairs := by
  induction pairs generalizing entries with
  | nil => exact .inl h
  | cons pair rest ih =>
    obtain h | h := ih h
    · obtain rfl | h := mem_of_mem_insert h
      · exact .inr (List.mem_cons_self ..)
      · exact .inl h
    · exact .inr (List.mem_cons_of_mem _ h)

theorem mem_of_mem_ofList {pairs : List (String × α)} {entry : String × α}
    (h : entry ∈ ofList pairs) : entry ∈ pairs :=
  (mem_of_mem_foldl_insert h).resolve_left List.not_mem_nil

theorem mem_names_of_mem {entries : Entries α} {name : String} {value : α}
    (h : (name, value) ∈ entries) : name ∈ names entries :=
  List.mem_map_of_mem (f := Prod.fst) h

/-- No name that is written is lost. -/
theorem mem_names_foldl_insert {entries : Entries α} {pairs : List (String × α)} {name : String}
    (h : name ∈ names entries ∨ name ∈ names pairs) :
    name ∈ names (pairs.foldl (fun entries pair => insert entries pair.1 pair.2) entries) := by
  induction pairs generalizing entries with
  | nil => exact h.resolve_right List.not_mem_nil
  | cons pair rest ih =>
    obtain ⟨k, v⟩ := pair
    apply ih
    show name ∈ names (insert entries k v) ∨ _
    rw [names_cons, List.mem_cons] at h
    by_cases hm : k ∈ names entries
    · rw [names_insert_of_mem hm]
      obtain h | rfl | h := h
      · exact .inl h
      · exact .inl hm
      · exact .inr h
    · rw [names_insert_of_not_mem hm, names_append]
      obtain h | rfl | h := h
      · exact .inl (List.mem_append_left _ h)
      · exact .inl (List.mem_append_right _ (List.mem_singleton_self _))
      · exact .inr h

theorem mem_of_get? {entries : Entries α} {name : String} {value : α}
    (h : get? entries name = some value) : (name, value) ∈ entries := by
  induction entries with
  | nil => cases h
  | cons pair rest ih =>
    obtain ⟨k, v⟩ := pair
    rw [get?_cons] at h
    split at h
    · rename_i hk
      rw [hk, Option.some_inj.1 h]
      exact List.mem_cons_self ..
    · exact List.mem_cons_of_mem _ (ih h)

/-- Where no name occurs twice, an entry is what its name leads to. -/
theorem get?_eq_some {entries : Entries α} (hd : Distinct entries) {name : String} {value : α} :
    get? entries name = some value ↔ (name, value) ∈ entries := by
  refine ⟨mem_of_get?, fun h => ?_⟩
  induction entries with
  | nil => cases h
  | cons pair rest ih =>
    obtain ⟨k, v⟩ := pair
    rw [Distinct, names_cons, List.nodup_cons] at hd
    rw [get?_cons]
    obtain heq | h := List.mem_cons.1 h
    · cases heq
      exact if_pos rfl
    · have hne : name ≠ k := fun hk => hd.1 (hk ▸ mem_names_of_mem h)
      rw [if_neg hne]
      exact ih hd.2 h

/-- A name that is written leads to something that was written to it. -/
theorem exists_get?_ofList {pairs : List (String × α)} {name : String} (h : name ∈ names pairs) :
    ∃ value, get? (ofList pairs) name = some value ∧ (name, value) ∈ pairs := by
  obtain ⟨⟨_, value⟩, hmem, rfl⟩ := List.mem_map.1
    (mem_names_foldl_insert (.inr h : name ∈ names [] ∨ _))
  exact ⟨value, (get?_eq_some (distinct_ofList pairs)).2 hmem, mem_of_mem_ofList hmem⟩

/-! ### Entries with different names -/

/-- Entries with different names are kept as they are. -/
theorem ofList_of_distinct {pairs : List (String × α)} (h : Distinct pairs) :
    ofList pairs = pairs := by
  suffices ∀ (more entries : Entries α), Distinct (entries ++ more) →
      more.foldl (fun entries pair => insert entries pair.1 pair.2) entries = entries ++ more from
    this pairs [] h
  intro more
  induction more with
  | nil => simp
  | cons pair rest ih =>
    intro entries hd
    have hnew : pair.1 ∉ names entries := by
      intro hmem
      rw [Distinct, names_append, List.nodup_append] at hd
      exact hd.2.2 pair.1 hmem pair.1 (List.mem_cons_self ..) rfl
    rw [List.foldl_cons, names_insert_of_not_mem hnew, ih _ (by simpa using hd)]
    simp

theorem names_map (l : List β) (f : β → String) (g : β → α) :
    names (l.map fun x => (f x, g x)) = l.map f := by
  rw [names, List.map_map]
  rfl

/-- Entries made from declarations with different names are one for each. -/
theorem ofList_map {l : List β} {f : β → String} (h : (l.map f).Nodup) (g : β → α) :
    ofList (l.map fun x => (f x, g x)) = l.map fun x => (f x, g x) := by
  apply ofList_of_distinct
  rw [Distinct, names_map]
  exact h

def write (entries : Entries α) (pairs : List (String × α)) : Entries α :=
  pairs.foldl (fun entries pair => insert entries pair.1 pair.2) entries

@[simp] theorem write_nil (entries : Entries α) : write entries [] = entries := rfl

@[simp] theorem write_cons (entries : Entries α) (name : String) (value : α)
    (pairs : List (String × α)) :
    write entries ((name, value) :: pairs) = write (insert entries name value) pairs := rfl

theorem distinct_filterMap {entries : Entries α} (h : entries.Distinct)
    {g : String × α → Option (String × β)} (hg : ∀ {e r}, g e = some r → r.1 = e.1) :
    Distinct (entries.filterMap g) := by
  rw [Distinct, names, List.Nodup, List.pairwise_map] at h ⊢
  apply h.filterMap
  intro e d hne r hr s hs heq
  rw [hg hr, hg hs] at heq
  exact hne heq

theorem eq_of_mem {entries : Entries α} (h : entries.Distinct) {name : String} {v v' : α}
    (hv : (name, v) ∈ entries) (hv' : (name, v') ∈ entries) : v = v' := by
  rw [← get?_eq_some h] at hv hv'
  rw [hv] at hv'
  exact Option.some_inj.1 hv'

theorem names_write {entries : Entries α} {pairs : List (String × α)}
    (h : ∀ name ∈ names pairs, name ∈ names entries) :
    names (write entries pairs) = names entries := by
  induction pairs generalizing entries with
  | nil => rfl
  | cons pair rest ih =>
    obtain ⟨name, value⟩ := pair
    have hfirst : names (insert entries name value) = names entries :=
      names_insert_of_mem (h name (List.mem_cons_self ..))
    rw [write_cons, ih ?_, hfirst]
    intro other hother
    rw [hfirst]
    exact h other (List.mem_cons_of_mem _ hother)

/-- What is written with different names is found, and beside it what was there. -/
theorem get?_write {entries : Entries α} {pairs : List (String × α)} (hd : Distinct pairs)
    (name : String) : get? (write entries pairs) name = (get? pairs name).or (get? entries name) := by
  induction pairs generalizing entries with
  | nil => rfl
  | cons pair rest ih =>
    obtain ⟨k, value⟩ := pair
    rw [Distinct, names_cons, List.nodup_cons] at hd
    rw [write_cons, ih hd.2, get?_insert, get?_cons]
    by_cases hk : name = k
    · subst hk
      cases hrest : get? rest name with
      | none => simp
      | some v => exact absurd (mem_names_of_mem (mem_of_get? hrest)) hd.1
    · rw [if_neg hk, if_neg hk]

/-! ### Entries in a given order -/

/-- What there is for the names of an order, in that order. -/
def collect (order : List String) (f : String → Option α) : Entries α :=
  order.filterMap fun name => (f name).map fun value => (name, value)

theorem collect_congr {order : List String} {f g : String → Option α}
    (h : ∀ name ∈ order, f name = g name) : collect order f = collect order g := by
  induction order with
  | nil => rfl
  | cons name rest ih =>
    have hrest := ih fun other hother => h other (List.mem_cons_of_mem _ hother)
    rw [collect] at hrest
    rw [collect, collect, List.filterMap_cons, List.filterMap_cons, hrest,
      h name (List.mem_cons_self ..)]
    rfl

theorem mem_collect {order : List String} {f : String → Option α} {name : String} {value : α} :
    (name, value) ∈ collect order f ↔ name ∈ order ∧ f name = some value := by
  rw [collect, List.mem_filterMap]
  constructor
  · rintro ⟨_, hname, heq⟩
    obtain ⟨_, hf, heq⟩ := Option.map_eq_some_iff.1 heq
    cases heq
    exact ⟨hname, hf⟩
  · rintro ⟨hname, hf⟩
    exact ⟨name, hname, by rw [hf]; rfl⟩

theorem distinct_collect {order : List String} (hd : order.Nodup) (f : String → Option α) :
    Distinct (collect order f) := by
  rw [Distinct, names, List.Nodup, List.pairwise_map]
  apply List.Pairwise.filterMap _ _ hd
  intro name other hne r hr s hs heq
  obtain ⟨_, _, rfl⟩ := Option.map_eq_some_iff.1 hr
  obtain ⟨_, _, rfl⟩ := Option.map_eq_some_iff.1 hs
  exact hne heq

theorem get?_collect {order : List String} (hd : order.Nodup) (f : String → Option α)
    {name : String} (hname : name ∈ order) : get? (collect order f) name = f name := by
  apply Option.ext
  intro value
  rw [get?_eq_some (distinct_collect hd f), mem_collect]
  exact and_iff_right hname

/-- Entries with different names, some of them left out. -/
theorem filterMap_eq_collect {entries : Entries β} (hd : Distinct entries) (f : β → Option α) :
    entries.filterMap (fun entry => (f entry.2).map fun value => (entry.1, value)) =
      collect (names entries) fun name => (get? entries name).bind f := by
  suffices ∀ rest : Entries β, (∀ entry ∈ rest, entry ∈ entries) →
      rest.filterMap (fun entry => (f entry.2).map fun value => (entry.1, value)) =
        collect (names rest) fun name => (get? entries name).bind f from
    this entries fun _ h => h
  intro rest
  induction rest with
  | nil => exact fun _ => rfl
  | cons entry rest ih =>
    intro hmem
    have hrest := ih fun other hother => hmem other (List.mem_cons_of_mem _ hother)
    rw [collect] at hrest
    have hfirst : get? entries entry.1 = some entry.2 :=
      (get?_eq_some hd).2 (hmem entry (List.mem_cons_self ..))
    rw [List.filterMap_cons, hrest]
    show _ = List.filterMap (fun name => ((get? entries name).bind f).map fun value => (name, value))
      (entry.1 :: names rest)
    rw [List.filterMap_cons, hfirst]
    rfl

theorem collect_names {entries : Entries α} (hd : Distinct entries) :
    collect (names entries) (get? entries) = entries := by
  have h := filterMap_eq_collect hd some
  simp only [Option.map_some, Option.bind_fun_some] at h
  exact h.symm.trans List.filterMap_some

/-- Entries are what their names lead to. -/
theorem eq_of_get? {entries entries' : Entries α} (hd : Distinct entries)
    (hn : names entries' = names entries)
    (h : ∀ name ∈ names entries, get? entries' name = get? entries name) : entries' = entries := by
  have hd' : Distinct entries' := by
    rw [Distinct, hn]
    exact hd
  rw [← collect_names hd', ← collect_names hd, hn]
  exact collect_congr h

end Entries

end BlockSketch
