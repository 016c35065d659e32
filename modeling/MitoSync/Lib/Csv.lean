import Mathlib.Data.List.Basic
/-!
# Csv — tables of comma-separated values, written without escapes

The reader of RFC 4180: a cell may stand between quotes, a quote inside them is written twice, and a record ends at a
line feed or a carriage return and a line feed.  A writer that puts every cell down as it is, some between quotes and
some not, is read back as it was meant exactly if no quoted cell has a quote and no other cell a comma, a quote or a
line break (`read_lines`).
-/
namespace Lib
namespace Csv

abbrev Table := List (List (List Char))

/-! ## The reader -/

/-- Before a cell, in one, in a quoted one, behind a quote in that, and behind a carriage return. -/
inductive Mode
  | start | plain | quoted | closed | ret

structure State where
  mode : Mode := .start
  field : List Char := []
  record : List (List Char) := []
  records : Table := []

def State.push (s : State) (mode : Mode) (c : Char) : State := { s with mode, field := s.field ++ [c] }

def State.comma (s : State) : State := { s with mode := .start, field := [], record := s.record ++ [s.field] }

def State.newline (s : State) : State := { records := s.records ++ [s.record ++ [s.field]] }

/-- What may stand behind a cell. -/
def State.stop (s : State) (c : Char) : Option State :=
  if c = ',' then some s.comma
  else if c = '\n' then some s.newline
  else if c = '\r' then some { s with mode := .ret }
  else none

def isSpecial (c : Char) : Bool := c = ',' || c = '"' || c = '\n' || c = '\r'

def State.plainStep (s : State) (c : Char) : Option State := if isSpecial c then s.stop c else some (s.push .plain c)

def step (s : State) (c : Char) : Option State :=
  match s.mode with
  | .start => if c = '"' then some { s with mode := .quoted } else s.plainStep c
  | .plain => s.plainStep c
  | .quoted => some (if c = '"' then { s with mode := .closed } else s.push .quoted c)
  | .closed => if c = '"' then some (s.push .quoted c) else s.stop c
  | .ret => if c = '\n' then some s.newline else none

/-- The end of the text: the last record may lack its line break. -/
def finish (s : State) : Option Table :=
  match s.mode with
  | .start => some (if s.record = [] then s.records else s.newline.records)
  | .plain | .closed => some s.newline.records
  | .quoted | .ret => none

def readFrom : State → List Char → Option Table
  | s, [] => finish s
  | s, c :: text => (step s c).bind fun s' => readFrom s' text

def read (text : List Char) : Option Table := readFrom {} text

/-! ## The writer -/

/-- A cell, and whether it is put between quotes. -/
structure Cell where
  quoted : Bool
  text : List Char

def Cell.render (c : Cell) : List Char := if c.quoted then '"' :: (c.text ++ ['"']) else c.text

def Cell.Legible (c : Cell) : Prop := if c.quoted then '"' ∉ c.text else ∀ x ∈ c.text, isSpecial x = false

def line : List Cell → List Char
  | [] => []
  | [c] => c.render ++ ['\n']
  | c :: d :: cells => c.render ++ ',' :: line (d :: cells)

/-! ## What has been read stays -/

/-- The table has these records, and then one that begins with `record`. -/
def Begins (records : Table) (record : List (List Char)) (table : Table) : Prop :=
  ∃ more tail, table = records ++ (record ++ more) :: tail

variable {s s' : State} {c : Char} {text rest v f g : List Char} {records table : Table} {record : List (List Char)}

theorem Begins.field_eq (hf : Begins records (record ++ [f]) table) (hg : Begins records (record ++ [g]) table) :
    f = g := by
  obtain ⟨more, tail, rfl⟩ := hf
  obtain ⟨more', tail', h⟩ := hg
  have hrecord := (List.cons_eq_cons.1 (List.append_cancel_left h)).1
  rw [List.append_assoc, List.append_assoc] at hrecord
  exact (List.cons_eq_cons.1 (List.append_cancel_left hrecord)).1

theorem Begins.of_append {r : List (List Char)} (h : Begins records (record ++ r) table) :
    Begins records record table := by
  obtain ⟨more, tail, rfl⟩ := h
  exact ⟨r ++ more, tail, by rw [List.append_assoc]⟩

theorem Begins.of_records (h : records ++ [record] <+: table) : Begins records record table := by
  obtain ⟨tail, rfl⟩ := h
  exact ⟨[], tail, by simp⟩

theorem Begins.records_read (h : Begins records record table) : records <+: table := by
  obtain ⟨more, tail, rfl⟩ := h
  exact List.prefix_append _ _

/-- What a state has read of the table. -/
def State.Told (s : State) (table : Table) : Prop :=
  s.records <+: table ∧ (s.record ≠ [] → Begins s.records s.record table)

theorem told_of_begins (h : Begins s.records (s.record ++ [s.field]) table) : s.Told table :=
  ⟨h.records_read, fun _ => h.of_append⟩

theorem begins_of_comma (h : s.comma.Told table) : Begins s.records (s.record ++ [s.field]) table :=
  h.2 (by simp [State.comma])

theorem begins_of_newline (h : s.newline.Told table) : Begins s.records (s.record ++ [s.field]) table :=
  .of_records h.1

theorem stop_cases (h : s.stop c = some s') : s' = s.comma ∨ s' = s.newline ∨ s' = { s with mode := .ret } := by
  unfold State.stop at h
  split at h
  · exact .inl (Option.some.inj h).symm
  · split at h
    · exact .inr (.inl (Option.some.inj h).symm)
    · split at h
      · exact .inr (.inr (Option.some.inj h).symm)
      · cases h

theorem told_of_stop (h : s.stop c = some s') (hs' : s'.Told table) : s.Told table := by
  obtain rfl | rfl | rfl := stop_cases h
  · exact told_of_begins (begins_of_comma hs')
  · exact told_of_begins (begins_of_newline hs')
  · exact hs'

theorem told_of_plainStep (h : s.plainStep c = some s') (hs' : s'.Told table) : s.Told table := by
  unfold State.plainStep at h
  split at h
  · exact told_of_stop h hs'
  · cases h
    exact hs'

theorem told_of_step (h : step s c = some s') (hs' : s'.Told table) : s.Told table := by
  unfold step at h
  split at h
  · split at h
    · cases h
      exact hs'
    · exact told_of_plainStep h hs'
  · exact told_of_plainStep h hs'
  · cases h
    split at hs' <;> exact hs'
  · split at h
    · cases h
      exact hs'
    · exact told_of_stop h hs'
  · split at h
    · cases h
      exact told_of_begins (begins_of_newline hs')
    · cases h

theorem told_of_finish (h : finish s = some table) : s.Told table := by
  have hlast : s.newline.records = table → s.Told table := by
    rintro rfl
    exact told_of_begins (.of_records List.prefix_rfl)
  unfold finish at h
  split at h
  · cases h
    split
    · rename_i hrecord
      exact ⟨List.prefix_rfl, fun hne => absurd hrecord hne⟩
    · exact told_of_begins (.of_records List.prefix_rfl)
  · exact hlast (Option.some.inj h)
  · exact hlast (Option.some.inj h)
  · cases h
  · cases h

/-- **The table has what the reader had read of it at any point.** -/
theorem told_of_readFrom : ∀ {text : List Char} {s : State}, readFrom s text = some table → s.Told table
  | [], _, h => told_of_finish h
  | _ :: _, _, h => by
    obtain ⟨s', hstep, hrest⟩ := Option.bind_eq_some_iff.1 h
    exact told_of_step hstep (told_of_readFrom hrest)

/-- A cell that is over is a cell of the table. -/
theorem begins_of_stop (h : s.stop c = some s') (hread : readFrom s' text = some table) :
    Begins s.records (s.record ++ [s.field]) table := by
  obtain rfl | rfl | rfl := stop_cases h
  · exact begins_of_comma (told_of_readFrom hread)
  · exact begins_of_newline (told_of_readFrom hread)
  · -- nothing but a line feed may follow
    cases text with
    | nil => cases hread
    | cons c text =>
      obtain ⟨s', hstep, hrest⟩ := Option.bind_eq_some_iff.1 hread
      simp only [step] at hstep
      split at hstep
      · cases hstep
        exact begins_of_newline (told_of_readFrom hrest)
      · cases hstep

/-! ## Quoted cells -/

/-- A text as it has to stand between quotes. -/
def escape : List Char → List Char
  | [] => []
  | c :: v => if c = '"' then '"' :: '"' :: escape v else c :: escape v

/-- **A quoted cell ends at the first quote that does not stand twice.** -/
theorem quoted_split : ∀ (text : List Char) {s : State}, s.mode = .quoted → readFrom s text = some table →
    ∃ f rest, text = escape f ++ '"' :: rest ∧ rest.head? ≠ some '"' ∧
      Begins s.records (s.record ++ [s.field ++ f]) table
  | [], s, hmode, h => by simp [readFrom, finish, hmode] at h
  | c :: text, s, hmode, h => by
    simp only [readFrom, step, hmode] at h
    by_cases hc : c = '"'
    · subst hc
      simp only [↓reduceIte, Option.bind_some] at h
      cases text with
      | nil =>
        simp only [readFrom, finish, Option.some.injEq] at h
        subst h
        exact ⟨[], [], rfl, by simp, by rw [List.append_nil]; exact .of_records List.prefix_rfl⟩
      | cons d text =>
        rw [readFrom] at h
        by_cases hd : d = '"'
        · subst hd
          simp only [step, ↓reduceIte, Option.bind_some] at h
          obtain ⟨f, rest, rfl, hrest, hbegins⟩ := quoted_split text rfl h
          exact ⟨'"' :: f, rest, by simp [escape], hrest, by simpa [State.push] using hbegins⟩
        · simp only [step, hd, ↓reduceIte] at h
          obtain ⟨s', hstop, hread⟩ := Option.bind_eq_some_iff.1 h
          exact ⟨[], d :: text, rfl, by simpa using hd, by simpa using begins_of_stop hstop hread⟩
    · simp only [hc, ↓reduceIte, Option.bind_some] at h
      obtain ⟨f, rest, rfl, hrest, hbegins⟩ := quoted_split text rfl h
      exact ⟨c :: f, rest, by simp [escape, hc], hrest, by simpa [State.push] using hbegins⟩

/-- A text behind quotes of its own is not read as itself: each of them would have to stand twice. -/
theorem no_shift (hrest : ¬ ['"', '"'] <+: rest) : ∀ (v text : List Char) (n : Nat),
    v ++ rest ≠ List.replicate (n + 1) '"' ++ (escape v ++ '"' :: text)
  | [], text, n, h => by
    obtain rfl : rest = List.replicate (n + 1) '"' ++ '"' :: text := h
    cases n with
    | zero => exact hrest ⟨text, rfl⟩
    | succ n => exact hrest ⟨List.replicate n '"' ++ '"' :: text, rfl⟩
  | c :: v, text, n, h => by
    obtain ⟨rfl, hv⟩ := List.cons_eq_cons.1 h
    refine no_shift hrest v text (n + 1) (hv.trans ?_)
    rw [List.replicate_add n 2 '"', List.append_assoc]
    rfl

/-- What is read as itself between quotes has no quote. -/
theorem not_mem_of_escape (hrest : ¬ ['"', '"'] <+: rest) : ∀ (v : List Char) {text : List Char},
    v ++ rest = escape v ++ '"' :: text → '"' ∉ v
  | [], _, _ => by simp
  | c :: v, text, h => by
    by_cases hc : c = '"'
    · subst hc
      exact absurd (List.cons_eq_cons.1 h).2 (no_shift hrest v text 0)
    · rw [escape, if_neg hc] at h
      have hv := not_mem_of_escape hrest v (List.cons_eq_cons.1 h).2
      simp [hv, Ne.symm hc]

/-! ## One cell -/

/-- The reader at the start of a cell. -/
def before (records : Table) (record : List (List Char)) : State := { record, records }

/-- What the writer puts behind a cell. -/
def isSep (c : Char) : Prop := c = ',' ∨ c = '\n'

theorem isSep.ne_quote (h : isSep c) : c ≠ '"' := by
  rcases h with rfl | rfl <;> decide

theorem plain_legible (hread : readFrom s (v ++ c :: rest) = some table) (hmode : s.mode = .plain)
    (hbegins : Begins s.records (s.record ++ [s.field ++ v]) table) : ∀ x ∈ v, isSpecial x = false := by
  induction v generalizing s with
  | nil => simp
  | cons x v ih =>
    obtain ⟨s', hstep, hrest⟩ := Option.bind_eq_some_iff.1 hread
    rw [step, hmode] at hstep
    simp only [State.plainStep] at hstep
    split at hstep
    · have hfield := hbegins.field_eq (begins_of_stop hstep hrest)
      simp at hfield
    · rename_i hx
      cases hstep
      have hv := ih hrest rfl (by simpa [State.push] using hbegins)
      simpa [hx] using hv

/-- **A cell that is read as it was meant was legible.** -/
theorem legible_of_read {cell : Cell} (hc : isSep c)
    (hread : readFrom (before records record) (cell.render ++ c :: rest) = some table)
    (hbegins : Begins records (record ++ [cell.text]) table) : cell.Legible := by
  have hrest : ¬ ['"', '"'] <+: c :: rest := fun ⟨_, h⟩ => hc.ne_quote (List.cons_eq_cons.1 h).1.symm
  obtain ⟨quoted, v⟩ := cell
  unfold Cell.Legible
  cases quoted with
  | true =>
    have hread : readFrom { before records record with mode := .quoted } (v ++ '"' :: c :: rest) = some table := by
      simpa [Cell.render, readFrom, step, before] using hread
    obtain ⟨f, text, htext, -, hf⟩ := quoted_split _ rfl hread
    obtain rfl : f = v := hf.field_eq hbegins
    refine not_mem_of_escape (fun ⟨_, h⟩ => ?_) f htext
    exact hc.ne_quote (List.cons_eq_cons.1 (List.cons_eq_cons.1 h).2).1.symm
  | false =>
    show ∀ x ∈ v, isSpecial x = false
    cases v with
    | nil => simp
    | cons x v =>
      by_cases hx : x = '"'
      · subst hx
        have hread : readFrom { before records record with mode := .quoted } (v ++ c :: rest) = some table := by
          simpa [Cell.render, readFrom, step, before] using hread
        obtain ⟨f, text, htext, -, hf⟩ := quoted_split _ rfl hread
        obtain rfl : f = '"' :: v := hf.field_eq hbegins
        exact absurd htext (no_shift hrest v text 1)
      · have hstep : step (before records record) x = step { before records record with mode := .plain } x :=
          if_neg hx
        have hread : readFrom { before records record with mode := .plain } (x :: v ++ c :: rest) = some table := by
          rw [List.cons_append, readFrom, ← hstep]
          exact hread
        exact plain_legible hread rfl hbegins

/-- Characters that a mode takes one by one. -/
theorem readFrom_pushed {mode : Mode} (hmode : s.mode = mode)
    (hv : ∀ x ∈ v, ∀ s : State, s.mode = mode → step s x = some (s.push mode x)) :
    readFrom s (v ++ rest) = readFrom { s with field := s.field ++ v } rest := by
  induction v generalizing s with
  | nil => simp
  | cons x v ih =>
    have hstep : step s x = some (s.push mode x) := hv x (by simp) s hmode
    rw [List.cons_append, readFrom, hstep, Option.bind_some, ih rfl fun y hy => hv y (by simp [hy])]
    simp [State.push, hmode]

theorem readFrom_plain (hmode : s.mode = .plain) (hv : ∀ x ∈ v, isSpecial x = false) :
    readFrom s (v ++ rest) = readFrom { s with field := s.field ++ v } rest := by
  refine readFrom_pushed hmode fun x hx s hs => ?_
  have hspecial : isSpecial x = false := hv x hx
  simp [step, hs, State.plainStep, hspecial]

theorem readFrom_quoted (hmode : s.mode = .quoted) (hv : '"' ∉ v) :
    readFrom s (v ++ rest) = readFrom { s with field := s.field ++ v } rest := by
  refine readFrom_pushed hmode fun x hx s hs => ?_
  have hquote : x ≠ '"' := fun h => hv (h ▸ hx)
  simp [step, hs, hquote]

theorem readFrom_cell {cell : Cell} (hcell : cell.Legible) (hc : isSep c) :
    readFrom (before records record) (cell.render ++ c :: rest) =
      (({ before records record with field := cell.text } : State).stop c).bind fun s' => readFrom s' rest := by
  obtain ⟨quoted, v⟩ := cell
  have hquote : c ≠ '"' := hc.ne_quote
  have hstop : ∀ mode, ({ before records record with mode, field := v } : State).stop c =
      ({ before records record with field := v } : State).stop c := fun mode => by
    rcases hc with rfl | rfl <;> rfl
  cases quoted with
  | true =>
    have hv : '"' ∉ v := hcell
    have hopen : readFrom (before records record) ('"' :: (v ++ ['"']) ++ c :: rest) =
        readFrom { before records record with mode := .quoted } (v ++ '"' :: c :: rest) := by
      simp [readFrom, step, before]
    have hclose : readFrom { before records record with mode := .quoted, field := v } ('"' :: c :: rest) =
        readFrom { before records record with mode := .closed, field := v } (c :: rest) := by
      simp [readFrom, step]
    refine hopen.trans ((readFrom_quoted rfl hv).trans (hclose.trans ?_))
    rw [readFrom, ← hstop .closed]
    simp [step, hquote]
  | false =>
    have hv : ∀ x ∈ v, isSpecial x = false := hcell
    have hsep : isSpecial c = true := by
      rcases hc with rfl | rfl <;> decide
    show readFrom (before records record) (v ++ c :: rest) = _
    cases v with
    | nil => simp [readFrom, step, before, hquote, State.plainStep, hsep]
    | cons x v =>
      have hx : isSpecial x = false := hv x (by simp)
      have hne : x ≠ '"' := fun h => absurd hx (by simp [h, isSpecial])
      have hopen : readFrom (before records record) (x :: v ++ c :: rest) =
          readFrom { before records record with mode := .plain, field := [x] } (v ++ c :: rest) := by
        simp [readFrom, step, before, hne, State.plainStep, hx, State.push]
      refine hopen.trans ((readFrom_plain rfl fun y hy => hv y (by simp [hy])).trans ?_)
      rw [readFrom, ← hstop .plain]
      simp [step, State.plainStep, hsep]

/-! ## Lines -/

theorem readFrom_line {cells : List Cell} (hne : cells ≠ []) (h : ∀ cell ∈ cells, cell.Legible) :
    readFrom (before records record) (line cells ++ rest) =
      readFrom (before (records ++ [record ++ cells.map Cell.text]) []) rest := by
  induction cells generalizing record with
  | nil => exact absurd rfl hne
  | cons cell cells ih =>
    have hcell : cell.Legible := h cell (by simp)
    cases cells with
    | nil =>
      rw [line, List.append_assoc]
      exact readFrom_cell hcell (.inr rfl)
    | cons cell' cells =>
      rw [line, List.append_assoc, List.cons_append, readFrom_cell hcell (.inl rfl)]
      have hrest : readFrom (before records (record ++ [cell.text])) (line (cell' :: cells) ++ rest) =
          readFrom (before (records ++ [record ++ [cell.text] ++ (cell' :: cells).map Cell.text]) []) rest :=
        ih (by simp) fun c hc => h c (by simp [hc])
      rw [List.append_assoc record] at hrest
      exact hrest

theorem line_legible {cells : List Cell} (hread : readFrom (before records record) (line cells ++ rest) = some table)
    (hbegins : Begins records (record ++ cells.map Cell.text) table) : ∀ cell ∈ cells, cell.Legible := by
  induction cells generalizing record with
  | nil => simp
  | cons cell cells ih =>
    have hfirst : Begins records (record ++ [cell.text]) table := by
      rw [List.map_cons, List.append_cons] at hbegins
      exact hbegins.of_append
    cases cells with
    | nil =>
      rw [line, List.append_assoc] at hread
      simpa using legible_of_read (.inr rfl) hread hfirst
    | cons cell' cells =>
      rw [line, List.append_assoc, List.cons_append] at hread
      have hcell : cell.Legible := legible_of_read (.inl rfl) hread hfirst
      rw [readFrom_cell hcell (.inl rfl)] at hread
      have hcells : Begins records (record ++ [cell.text] ++ (cell' :: cells).map Cell.text) table := by
        rw [← List.append_cons]
        exact hbegins
      have hrest : ∀ c ∈ cell' :: cells, c.Legible := ih hread hcells
      exact List.forall_mem_cons.2 ⟨hcell, hrest⟩

theorem readFrom_lines : ∀ {rows : List (List Cell)} {records : Table}, [] ∉ rows →
    (readFrom (before records []) (rows.flatMap line) = some (records ++ rows.map (List.map Cell.text)) ↔
      ∀ row ∈ rows, ∀ cell ∈ row, cell.Legible)
  | [], records, _ => by simp [readFrom, finish, before]
  | row :: rows, records, hne => by
    have hrow : row ≠ [] := fun h => hne (by simp [h])
    have hrows : [] ∉ rows := fun h => hne (by simp [h])
    rw [List.flatMap_cons, List.forall_mem_cons]
    have hline : (∀ cell ∈ row, cell.Legible) → readFrom (before records []) (line row ++ rows.flatMap line) =
        readFrom (before (records ++ [row.map Cell.text]) []) (rows.flatMap line) := readFrom_line hrow
    have htable : records ++ (row :: rows).map (List.map Cell.text) =
        (records ++ [row.map Cell.text]) ++ rows.map (List.map Cell.text) := by simp
    constructor
    · intro hread
      have hlegible := line_legible hread ⟨[], rows.map (List.map Cell.text), by simp⟩
      rw [hline hlegible, htable] at hread
      exact ⟨hlegible, (readFrom_lines hrows).1 hread⟩
    · rintro ⟨hlegible, hrest⟩
      rw [hline hlegible, htable]
      exact (readFrom_lines hrows).2 hrest

/-- **A table written without escapes is read back exactly if every cell is legible.** -/
theorem read_lines {rows : List (List Cell)} (hne : [] ∉ rows) :
    read (rows.flatMap line) = some (rows.map (List.map Cell.text)) ↔ ∀ row ∈ rows, ∀ cell ∈ row, cell.Legible :=
  readFrom_lines hne

end Csv
end Lib
