/-
The text an administrator imports servers from (`admin.rs`): a line for each server, of two to five cells, with a
header, blank lines and comments left out. A cell may be in quotes, with quotes inside it doubled. Every line is read
by the validators of the fields, and unless all are good nothing is imported.

What the text says is defined line by line (`Reads`), apart from the loop; a line offends when it says nothing, or says
a name again.
-/
import WebAccess.Saml.Reading
import WebAccess.Saml.Sids
import WebAccess.Serve.Names
import Mathlib.Data.List.Induction

namespace WebAccess.Csv

open Wire Trimming Saml

/-! ## The fields -/

/-- `{:?}` of a text -/
abbrev Debug := Text → Text

def validName (name : Text) : Except Text Text :=
  let name := trim name
  if name = [] ∨ 100 < name.length ∨ name.any isControl then .error "a name is 1 to 100 characters" else .ok name

/-- `str::len` -/
def byteLength (t : Text) : Nat := (t.map Char.utf8Size).sum

def validHost (debug : Debug) (host : Text) : Except Text Text :=
  let host := trim host
  if host.count ':' = 1 then
    .error (debug host ++ " includes a port; give the host alone and the port in its own field")
  else if host ≠ [] ∧ byteLength host ≤ 253 ∧ host.all fun c =>
    c.isAlphanum || ['.', '-', '_', ':'].contains c then .ok host
  else .error (debug host ++ " is not a host name or address")

def validDomain (debug : Debug) (domain : Text) : Except Text (Option Text) :=
  let domain := trim domain
  if domain = [] then .ok none
  else if byteLength domain ≤ 255 ∧
      domain.all fun c => !isWhitespace c && !isControl c && !(['\\', '@', '/'].contains c) then .ok (some domain)
  else .error (debug domain ++ " is not a domain name")

def readPort (debug : Debug) (cell : Option Text) : Except Text (Option Nat) :=
  let p := (cell.map trim).getD []
  if p = [] then .ok none
  else match parseUnsigned (2 ^ 16) p with
    | some (n + 1) => .ok (some (n + 1))
    | _ => .error ("port " ++ debug p ++ " is not 1 to 65535")

/-- The fourth cell: an absent column keeps the group a server has, an empty cell ungroups it. -/
def readGroup (cell : Option Text) : Except Text (Option (Option Text)) :=
  match cell.map trim with
  | none => .ok none
  | some [] => .ok (some none)
  | some g => match validName g with
    | .ok v => .ok (some (some v))
    | .error e => .error ("group: " ++ e)

/-- The fifth cell: absent keeps the domain, empty clears it. -/
def readDomain (debug : Debug) (cell : Option Text) : Except Text (Option (Option Text)) :=
  match cell with
  | none => .ok none
  | some d => match validDomain debug d with
    | .ok v => .ok (some v)
    | .error e => .error ("domain: " ++ e)

/-! ## The text -/

/-- `csv_fields`, from where it is in a line: the fields so far, the one that is read, and whether in quotes. -/
def csvGo (fields : List Text) (cur : Text) : Bool → Text → Except Text (List Text)
  | quoted, [] => if quoted then .error "unterminated quote" else .ok ((fields ++ [cur]).map trim)
  | true, '"' :: '"' :: rest => csvGo fields (cur ++ ['"']) true rest
  | true, '"' :: rest => csvGo fields cur false rest
  | false, '"' :: rest => if trim cur = [] then csvGo fields [] true rest else csvGo fields (cur ++ ['"']) false rest
  | false, ',' :: rest => csvGo (fields ++ [cur]) [] false rest
  | quoted, c :: rest => csvGo fields (cur ++ [c]) quoted rest

def csvFields (line : Text) : Except Text (List Text) := csvGo [] [] false line

def readRow (debug : Debug) (fields : List Text) : Except Text ImportRow :=
  match fields with
  | name :: host :: rest =>
    if 3 < rest.length then .error "expected name,host[,port[,group[,domain]]]"
    else do
      let name ← validName name
      let host ← validHost debug host
      let port ← readPort debug rest[0]?
      let group ← readGroup rest[1]?
      let domain ← readDomain debug rest[2]?
      pure { name, host, port, group, domain }
  | _ => .error "expected name,host[,port[,group[,domain]]]"

def readLine (debug : Debug) (line : Text) : Except Text ImportRow := csvFields line >>= readRow debug

/-- `str::lines`: the last line need not be ended, and a carriage return before the end of a line is no part of it. -/
def linesOf (text : Text) : List Text :=
  let parts := text.splitOn '\n'
  (parts.dropLast.map fun l => (stripLast '\r' l).getD l) ++ (parts.getLast?.filter (· != [])).toList

def isSkipped (line : Text) : Bool := line.isEmpty || "#".toList.isPrefixOf line

def isHeader (line : Text) : Bool := "name,".toList.isPrefixOf (line.map Char.toLower)

/-- What `parse_import` keeps in its loop. -/
structure Progress where
  rows : List ImportRow := []
  errors : List Text := []
  seen : List Text := []
  first : Bool := true

def lineError (n : Nat) (why : Text) : Text := "line " ++ number n ++ ": " ++ why

section Import

variable (low : Lowercase) (debug : Debug)

def takeLine (p : Progress) (n : Nat) (line : Text) : Progress :=
  match readLine debug line with
  | .error e => { p with errors := p.errors ++ [lineError n e] }
  | .ok row =>
    if p.seen.contains (low.lower row.name) then
      { p with errors := p.errors ++ [lineError n (row.name ++ " appears more than once")] }
    else { p with rows := p.rows ++ [row], seen := low.lower row.name :: p.seen }

/-- The loop of `parse_import`. -/
def importLine (p : Progress) (numbered : Text × Nat) : Progress :=
  let line := trim numbered.1
  if isSkipped line then p
  else if p.first && isHeader line then { p with first := false }
  else takeLine low debug { p with first := false } (numbered.2 + 1) line

/-- `parse_import`: the rows, or an error for each line that is none. -/
def parseImport (text : Text) : Except (List Text) (List ImportRow) :=
  let p := (linesOf text).zipIdx.foldl (importLine low debug) {}
  if p.errors.isEmpty then .ok p.rows else .error p.errors

end Import

/-! ## What the validators pass -/

theorem trim_trim (t : Text) : trim (trim t) = trim t := stripEnds_of_bare (bare_stripEnds isWhitespace t)

variable {c : Prop} {e : Text} {low : Lowercase}

theorem ite_error_eq_ok {α : Type} [Decidable c] {x : Except Text α} {v : α} :
    (if c then .error e else x) = .ok v ↔ ¬ c ∧ x = .ok v := by
  split <;> simp_all

theorem ite_ok_eq_ok {α : Type} [Decidable c] {u v : α} :
    (if c then Except.ok u else .error e) = .ok v ↔ c ∧ u = v := by
  split <;> simp_all

variable {x v : Text} {debug : Debug} {cell : Option Text}

theorem validName_ok : validName x = .ok v ↔ v = trim x ∧ v ≠ [] ∧ v.length ≤ 100 ∧ ∀ c ∈ v, isControl c = false := by
  simp only [validName, ite_error_eq_ok, not_or, not_lt, Bool.not_eq_true, List.any_eq_false, Except.ok.injEq]
  constructor
  · rintro ⟨h, rfl⟩
    exact ⟨rfl, h⟩
  · rintro ⟨rfl, h⟩
    exact ⟨h, rfl⟩

theorem validHost_ok : validHost debug x = .ok v ↔ v = trim x ∧ v.count ':' ≠ 1 ∧ v ≠ [] ∧
    byteLength v ≤ 253 ∧ ∀ c ∈ v, (c.isAlphanum || ['.', '-', '_', ':'].contains c) = true := by
  simp only [validHost, ite_error_eq_ok, ite_ok_eq_ok, List.all_eq_true]
  constructor
  · rintro ⟨hcount, h, rfl⟩
    exact ⟨rfl, hcount, h⟩
  · rintro ⟨rfl, hcount, h⟩
    exact ⟨hcount, h, rfl⟩

theorem validDomain_ok : validDomain debug x = .ok (some v) ↔ v = trim x ∧ v ≠ [] ∧
    byteLength v ≤ 255 ∧ ∀ c ∈ v, (!isWhitespace c && !isControl c && !(['\\', '@', '/'].contains c)) = true := by
  unfold validDomain
  dsimp only
  by_cases hne : trim x = []
  · rw [if_pos hne]
    simp only [Except.ok.injEq, reduceCtorEq, false_iff, not_and]
    rintro rfl h
    exact absurd hne h
  · rw [if_neg hne, ite_ok_eq_ok, List.all_eq_true, Option.some.injEq]
    constructor
    · rintro ⟨h, rfl⟩
      exact ⟨rfl, hne, h⟩
    · rintro ⟨rfl, -, h⟩
      exact ⟨h, rfl⟩

theorem validName_again (h : validName x = .ok v) : validName v = .ok v := by
  obtain ⟨rfl, hrest⟩ := validName_ok.1 h
  exact validName_ok.2 ⟨(trim_trim x).symm, hrest⟩

theorem validHost_again (h : validHost debug x = .ok v) : validHost debug v = .ok v := by
  obtain ⟨rfl, hrest⟩ := validHost_ok.1 h
  exact validHost_ok.2 ⟨(trim_trim x).symm, hrest⟩

theorem validDomain_again (h : validDomain debug x = .ok (some v)) : validDomain debug v = .ok (some v) := by
  obtain ⟨rfl, hrest⟩ := validDomain_ok.1 h
  exact validDomain_ok.2 ⟨(trim_trim x).symm, hrest⟩

/-- A row that can have been read. -/
structure Valid (debug : Debug) (row : ImportRow) : Prop where
  name : validName row.name = .ok row.name
  host : validHost debug row.host = .ok row.host
  port : ∀ p ∈ row.port, 1 ≤ p ∧ p < 2 ^ 16
  group : ∀ g, row.group = some (some g) → validName g = .ok g
  domain : ∀ d, row.domain = some (some d) → validDomain debug d = .ok (some d)
  columns : row.domain.isSome → row.group.isSome

theorem readPort_ok {port : Option Nat} (h : readPort debug cell = .ok port) : ∀ p ∈ port, 1 ≤ p ∧ p < 2 ^ 16 := by
  unfold readPort at h
  dsimp only at h
  split at h
  · cases h
    simp
  · split at h
    · rename_i n hn
      cases h
      rintro p ⟨⟩
      exact ⟨Nat.succ_pos n, (parseUnsigned_eq_some.1 hn).2⟩
    · cases h

theorem readGroup_ok {group : Option (Option Text)} (h : readGroup cell = .ok group) :
    (group.isSome ↔ cell.isSome) ∧ ∀ g, group = some (some g) → validName g = .ok g := by
  unfold readGroup at h
  cases cell with
  | none =>
    cases h
    simp
  | some c =>
    simp only [Option.map_some] at h
    split at h
    · rename_i hnone
      cases hnone
    · cases h
      simp
    · split at h
      · rename_i v hv
        cases h
        refine ⟨by simp, fun g hg => ?_⟩
        cases hg
        exact validName_again hv
      · cases h

theorem readDomain_ok {domain : Option (Option Text)} (h : readDomain debug cell = .ok domain) :
    (domain.isSome ↔ cell.isSome) ∧ ∀ d, domain = some (some d) → validDomain debug d = .ok (some d) := by
  unfold readDomain at h
  cases cell with
  | none =>
    cases h
    simp
  | some c =>
    dsimp only at h
    split at h
    · rename_i v hv
      cases h
      refine ⟨by simp, fun d hd => ?_⟩
      cases hd
      exact validDomain_again hv
    · cases h

theorem readRow_valid {fields : List Text} {row : ImportRow} (h : readRow debug fields = .ok row) :
    Valid debug row := by
  unfold readRow at h
  split at h
  · split at h
    · cases h
    · obtain ⟨name, hname, h⟩ := bind_ok h
      obtain ⟨host, hhost, h⟩ := bind_ok h
      obtain ⟨port, hport, h⟩ := bind_ok h
      obtain ⟨group, hgroup, h⟩ := bind_ok h
      obtain ⟨domain, hdomain, h⟩ := bind_ok h
      cases h
      refine ⟨validName_again hname, validHost_again hhost, readPort_ok hport, (readGroup_ok hgroup).2,
        (readDomain_ok hdomain).2, fun hd => (readGroup_ok hgroup).1.2 ?_⟩
      -- a fifth cell comes after a fourth
      have hlong := (readDomain_ok hdomain).1.1 hd
      rw [Option.isSome_iff_exists] at hlong ⊢
      obtain ⟨d, hd⟩ := hlong
      have hlen := (List.getElem?_eq_some_iff.1 hd).1
      exact ⟨_, List.getElem?_eq_getElem (Nat.lt_of_succ_lt hlen)⟩
  · cases h

/-! ## Rows as they are written -/

def doubled (f : Text) : Text := f.flatMap fun c => if c = '"' then ['"', '"'] else [c]

def quote (f : Text) : Text := '"' :: (doubled f ++ ['"'])

/-- The cells of a row, without the columns at the end that it does not give. -/
def cells (row : ImportRow) : List Text :=
  match row.group, row.domain with
  | some g, some d => [row.name, row.host, (row.port.map fun p : Nat => number p).getD [], g.getD [], d.getD []]
  | some g, none => [row.name, row.host, (row.port.map fun p : Nat => number p).getD [], g.getD []]
  | none, _ =>
    match row.port with
    | some p => [row.name, row.host, number p]
    | none => [row.name, row.host]

def writeRow (row : ImportRow) : Text := [','].intercalate ((cells row).map quote)

def writeRows (rows : List ImportRow) : Text := rows.flatMap fun row => writeRow row ++ ['\n']

/-! ### The quotes are read -/

section Quotes

variable {fields : List Text} {cur rest : Text}

theorem csvGo_other {quoted : Bool} {c : Char} (hquote : c ≠ '"') (hcomma : quoted = false → c ≠ ',') :
    csvGo fields cur quoted (c :: rest) = csvGo fields (cur ++ [c]) quoted rest := by
  rw [csvGo.eq_def]
  split <;> simp_all

theorem csvGo_doubled (f : Text) (hrest : rest.head? ≠ some '"') :
    csvGo fields cur true (doubled f ++ '"' :: rest) = csvGo fields (cur ++ f) false rest := by
  induction f generalizing cur with
  | nil =>
    cases rest with
    | nil => simp [doubled, csvGo]
    | cons c rest =>
      have hc : c ≠ '"' := by simpa using hrest
      simp [doubled, csvGo, hc]
  | cons c f ih =>
    rw [doubled, List.flatMap_cons, ← doubled]
    by_cases hc : c = '"'
    · rw [if_pos hc, hc, List.append_assoc]
      show csvGo fields cur true ('"' :: '"' :: (doubled f ++ '"' :: rest)) = _
      rw [csvGo, ih]
      simp
    · rw [if_neg hc, List.append_assoc]
      show csvGo fields cur true (c :: (doubled f ++ '"' :: rest)) = _
      rw [csvGo_other hc (by simp), ih]
      simp

theorem csvGo_quote (f : Text) (hrest : rest.head? ≠ some '"') :
    csvGo fields [] false (quote f ++ rest) = csvGo fields f false rest := by
  rw [quote, List.cons_append, List.append_assoc, csvGo, if_pos (by rfl)]
  exact csvGo_doubled f hrest

theorem intercalate_quote (f g : Text) (fs : List Text) : [','].intercalate ((f :: g :: fs).map quote) =
    quote f ++ ',' :: [','].intercalate ((g :: fs).map quote) := by
  simp [List.intercalate]

theorem csvGo_cells (f : Text) (fs : List Text) :
    csvGo fields [] false ([','].intercalate ((f :: fs).map quote)) = .ok ((fields ++ f :: fs).map trim) := by
  induction fs generalizing fields f with
  | nil =>
    have hone : [','].intercalate ([f].map quote) = quote f ++ [] := by simp [List.intercalate]
    rw [hone, csvGo_quote f (by simp)]
    simp [csvGo]
  | cons g fs ih =>
    rw [intercalate_quote, csvGo_quote f (by simp), csvGo, ih]
    simp

end Quotes

/-! ### A row is read as it was -/

section RoundTrip

variable {low : Lowercase} {debug : Debug} {row : ImportRow}

theorem trim_number (n : Nat) : trim (number n) = number n :=
  stripEnds_of_bare (bare_of_forall fun _ hc => isWhitespace_number hc)

/-- What holds of valid names, hosts and domains, of numbers and of nothing holds of every cell. -/
theorem forall_cells {P : Text → Prop} (h : Valid debug row) (hempty : P []) (hhost : P row.host)
    (hnumber : ∀ p : Nat, P (number p)) (hname : ∀ v, validName v = .ok v → P v)
    (hdomain : ∀ v, validDomain debug v = .ok (some v) → P v) : ∀ f ∈ cells row, P f := by
  have hgetD : ∀ o : Option Text, (∀ v, o = some v → P v) → P (o.getD []) := by
    intro o ho
    cases o with
    | none => exact hempty
    | some v => exact ho v rfl
  have hport := hgetD (row.port.map fun p : Nat => number p) fun v hv => by
    obtain ⟨p, -, rfl⟩ := Option.map_eq_some_iff.1 hv
    exact hnumber p
  unfold cells
  split
  · rename_i g d hg hd
    have hg' := hgetD g fun v hv => hname v (h.group v (hv ▸ hg))
    have hd' := hgetD d fun v hv => hdomain v (h.domain v (hv ▸ hd))
    simp [hname _ h.name, hhost, hport, hg', hd']
  · rename_i g hg hd
    have hg' := hgetD g fun v hv => hname v (h.group v (hv ▸ hg))
    simp [hname _ h.name, hhost, hport, hg']
  · split <;> simp [hname _ h.name, hhost, hnumber]

theorem trim_cells (h : Valid debug row) : (cells row).map trim = cells row := by
  have hall : ∀ f ∈ cells row, trim f = id f := forall_cells h rfl (validHost_ok.1 h.host).1.symm trim_number
    (fun v hv => (validName_ok.1 hv).1.symm) fun v hv => (validDomain_ok.1 hv).1.symm
  rw [List.map_congr_left hall, List.map_id]

theorem readPort_cell (debug : Debug) {port : Option Nat} (h : ∀ p ∈ port, 1 ≤ p ∧ p < 2 ^ 16) :
    readPort debug (some ((port.map fun p : Nat => number p).getD [])) = .ok port := by
  cases port with
  | none => rfl
  | some p =>
    obtain ⟨hfrom, hto⟩ := h p rfl
    have hne : number p ≠ [] := by
      rw [number_ofNat]
      exact Nat.toDigits_ne_nil
    have hparse := parseUnsigned_eq_some.2 ⟨spells_number p, hto⟩
    unfold readPort
    rw [Option.map_some, Option.map_some, Option.getD_some, Option.getD_some, trim_number]
    dsimp only
    rw [if_neg hne, hparse]
    cases p with
    | zero => cases hfrom
    | succ n => rfl

theorem readGroup_cell {g : Option Text} (h : ∀ v, g = some v → validName v = .ok v) :
    readGroup (some (g.getD [])) = .ok (some g) := by
  cases g with
  | none => rfl
  | some v =>
    obtain ⟨htrim, hne, -⟩ := validName_ok.1 (h v rfl)
    obtain ⟨c, v, rfl⟩ := List.exists_cons_of_ne_nil hne
    simp only [readGroup, Option.map_some, Option.getD_some, ← htrim, h _ rfl]

theorem readDomain_cell {d : Option Text} (h : ∀ v, d = some v → validDomain debug v = .ok (some v)) :
    readDomain debug (some (d.getD [])) = .ok (some d) := by
  cases d with
  | none => rfl
  | some v => simp only [readDomain, Option.getD_some, h v rfl]

theorem readRow_cells (h : Valid debug row) : readRow debug (cells row) = .ok row := by
  have hport := readPort_cell debug h.port
  obtain ⟨name, host, port, group, domain⟩ := row
  have hrow : ∀ rest : List Text, rest.length ≤ 3 → readPort debug rest[0]? = .ok port →
    readGroup rest[1]? = .ok group →
      readDomain debug rest[2]? = .ok domain → readRow debug (name :: host :: rest) = .ok ⟨name, host, port,
          group, domain⟩ := by
    intro rest hlen hp hg hd
    rw [readRow, if_neg (not_lt.2 hlen), h.name, h.host, hp, hg, hd]
    rfl
  unfold cells
  split
  · rename_i g d hgroup hdomain
    dsimp only at hgroup hdomain
    subst hgroup hdomain
    exact hrow _ (by simp) hport (readGroup_cell fun v hv => h.group v (by rw [hv])) (readDomain_cell fun v hv =>
      h.domain v (by rw [hv]))
  · rename_i g hgroup hdomain
    dsimp only at hgroup hdomain
    subst hgroup hdomain
    exact hrow _ (by simp) hport (readGroup_cell fun v hv => h.group v (by rw [hv])) rfl
  · rename_i hgroup
    dsimp only at hgroup
    subst hgroup
    -- without a group there is no domain
    obtain rfl : domain = none := by simpa using h.columns
    cases port with
    | none => exact hrow _ (by simp) rfl rfl rfl
    | some p => exact hrow _ (by simp) hport rfl rfl

theorem cells_eq_cons (row : ImportRow) : ∃ f fs, cells row = f :: fs := by
  unfold cells
  split
  · exact ⟨_, _, rfl⟩
  · exact ⟨_, _, rfl⟩
  · split <;> exact ⟨_, _, rfl⟩

theorem readLine_writeRow (h : Valid debug row) : readLine debug (writeRow row) = .ok row := by
  have hcells : csvFields (writeRow row) = .ok (cells row) := by
    obtain ⟨f, fs, hf⟩ := cells_eq_cons row
    rw [csvFields, writeRow, hf, csvGo_cells, List.nil_append, ← hf, trim_cells h]
  rw [readLine, hcells]
  exact readRow_cells h

end RoundTrip

/-! ## What the text says -/

section Contents

variable (low : Lowercase) (debug : Debug)

/-- Lines and their numbers, without white space around them and without blank lines and comments. -/
def kept (lines : List (Text × Nat)) : List (Text × Nat) :=
  (lines.map fun x => (trim x.1, x.2 + 1)).filter fun x => !isSkipped x.1

def withoutHeader : List (Text × Nat) → List (Text × Nat)
  | [] => []
  | x :: rest => if isHeader x.1 then rest else x :: rest

/-- The lines that are to say a row, with their numbers. -/
def contents (text : Text) : List (Text × Nat) := withoutHeader (kept (linesOf text).zipIdx)

/-- A line offends after others when it says no row, or one whose name has been said. -/
def Offends (before : List (Text × Nat)) (line : Text) : Prop :=
  ∀ row, readLine debug line = .ok row →
    ∃ x ∈ before, ∃ row', readLine debug x.1 = .ok row' ∧ low.lower row'.name = low.lower row.name

variable {low debug}

def takeAll (low : Lowercase) (debug : Debug) (p : Progress) (lines : List (Text × Nat)) : Progress :=
  lines.foldl (fun p x => takeLine low debug p x.2 x.1) p

theorem takeAll_first (p : Progress) (b : Bool) (lines : List (Text × Nat)) :
    takeAll low debug { p with first := b } lines = { takeAll low debug p lines with first := b } := by
  induction lines generalizing p with
  | nil => rfl
  | cons x lines ih =>
    have htake : takeLine low debug { p with first := b } x.2 x.1 =
        { takeLine low debug p x.2 x.1 with first := b } := by
      unfold takeLine
      split
      · rfl
      · dsimp only
        split <;> rfl
    rw [takeAll, List.foldl_cons, htake]
    exact ih _

variable {p : Progress}

theorem foldl_importLine_later (hp : p.first = false) (lines : List (Text × Nat)) :
    lines.foldl (importLine low debug) p = takeAll low debug p (kept lines) := by
  induction lines generalizing p with
  | nil => rfl
  | cons x lines ih =>
    rw [List.foldl_cons, importLine]
    by_cases hskip : isSkipped (trim x.1) = true
    · rw [if_pos hskip, ih hp]
      simp [kept, hskip]
    · have hkept : kept (x :: lines) = (trim x.1, x.2 + 1) :: kept lines := by simp [kept, hskip]
      have hsame : { p with first := false } = p := by rw [← hp]
      rw [if_neg hskip, hp, Bool.false_and, if_neg Bool.false_ne_true, hkept, hsame]
      refine ih ?_
      rw [← hsame]
      exact congrArg Progress.first (takeAll_first p false [(trim x.1, x.2 + 1)])

theorem foldl_importLine_first (hp : p.first = true) (lines : List (Text × Nat)) :
    ∃ b, lines.foldl (importLine low debug) p =
        { takeAll low debug p (withoutHeader (kept lines)) with first := b } := by
  induction lines generalizing p with
  | nil => exact ⟨p.first, rfl⟩
  | cons x lines ih =>
    rw [List.foldl_cons, importLine]
    by_cases hskip : isSkipped (trim x.1) = true
    · have hkept : kept (x :: lines) = kept lines := by simp [kept, hskip]
      rw [if_pos hskip, hkept]
      exact ih hp
    · have hkept : kept (x :: lines) = (trim x.1, x.2 + 1) :: kept lines := by simp [kept, hskip]
      rw [if_neg hskip, hp, Bool.true_and, hkept]
      refine ⟨false, ?_⟩
      by_cases hheader : isHeader (trim x.1) = true
      · rw [if_pos hheader, foldl_importLine_later rfl, takeAll_first]
        simp only [withoutHeader, hheader, if_true]
      · rw [if_neg hheader, withoutHeader, if_neg hheader]
        rw [foldl_importLine_later (by exact congrArg Progress.first (takeAll_first p false [(trim x.1, x.2 + 1)])),
          ← takeAll_first]
        rfl

theorem parseImport_eq (text : Text) : parseImport low debug text =
    if (takeAll low debug {} (contents text)).errors.isEmpty then .ok (takeAll low debug {} (contents text)).rows
    else .error (takeAll low debug {} (contents text)).errors := by
  have hfold : ∃ b, (linesOf text).zipIdx.foldl (importLine low debug) {} =
      { takeAll low debug {} (contents text) with first := b } := foldl_importLine_first rfl (linesOf text).zipIdx
  obtain ⟨b, hb⟩ := hfold
  rw [parseImport, hb]

/-- What the loop knows after some lines. -/
structure Taken (low : Lowercase) (debug : Debug) (lines : List (Text × Nat)) (p : Progress) : Prop where
  valid : ∀ row ∈ p.rows, Valid debug row
  distinct : p.rows.Pairwise fun a b => low.lower a.name ≠ low.lower b.name
  rows_seen : ∀ row ∈ p.rows, low.lower row.name ∈ p.seen
  seen : ∀ n, n ∈ p.seen ↔ ∃ x ∈ lines, ∃ row, readLine debug x.1 = .ok row ∧ low.lower row.name = n
  said : p.errors = [] → List.Forall₂ (fun x row => readLine debug x.1 = .ok row) lines p.rows
  told : ∀ before x after, lines = before ++ x :: after → Offends low debug before x.1 →
    ∃ why, lineError x.2 why ∈ p.errors
  errors : ∀ e ∈ p.errors, ∃ before x after why, lines = before ++ x :: after ∧ Offends low debug before x.1 ∧
    e = lineError x.2 why

theorem concat_eq_append_cons {α : Type} {lines before after : List α} {x y : α}
    (h : lines ++ [x] = before ++ y :: after) :
    (lines = before ∧ x = y ∧ after = []) ∨ ∃ after', lines = before ++ y :: after' ∧ after = after' ++ [x] := by
  rcases List.eq_nil_or_concat after with rfl | ⟨after', z, rfl⟩
  · obtain ⟨rfl, hx⟩ := List.append_inj' h rfl
    exact Or.inl ⟨rfl, by simpa using hx, rfl⟩
  · have h' : lines ++ [x] = (before ++ y :: after') ++ [z] := by simpa using h
    obtain ⟨rfl, hx⟩ := List.append_inj' h' rfl
    exact Or.inr ⟨after', rfl, by simpa using hx.symm⟩

variable {lines : List (Text × Nat)}

theorem Taken.offending {x : Text × Nat} {why : Text} (h : Taken low debug lines p) (hx : Offends low debug lines x.1)
    (hread : ∀ row, readLine debug x.1 = .ok row → low.lower row.name ∈ p.seen) :
    Taken low debug (lines ++ [x]) { p with errors := p.errors ++ [lineError x.2 why] } where
  valid := h.valid
  distinct := h.distinct
  rows_seen := h.rows_seen
  seen n := by
    rw [h.seen]
    constructor
    · rintro ⟨y, hy, hrow⟩
      exact ⟨y, List.mem_append_left _ hy, hrow⟩
    · rintro ⟨y, hy, row, hrow, rfl⟩
      rcases List.mem_append.1 hy with hy | hy
      · exact ⟨y, hy, row, hrow, rfl⟩
      · obtain rfl := List.mem_singleton.1 hy
        exact (h.seen _).1 (hread row hrow)
  said hnone := by simp at hnone
  told before y after hy hoffends := by
    rcases concat_eq_append_cons hy with ⟨rfl, rfl, -⟩ | ⟨after', hlines, -⟩
    · exact ⟨why, by simp⟩
    · obtain ⟨why', hwhy⟩ := h.told before y after' hlines hoffends
      exact ⟨why', List.mem_append_left _ hwhy⟩
  errors e he := by
    rcases List.mem_append.1 he with he | he
    · obtain ⟨before, y, after, why', rfl, hy, rfl⟩ := h.errors e he
      exact ⟨before, y, after ++ [x], why', by simp, hy, rfl⟩
    · exact ⟨lines, x, [], why, rfl, hx, List.mem_singleton.1 he⟩

theorem Taken.saying {x : Text × Nat} {row : ImportRow} (h : Taken low debug lines p)
    (hrow : readLine debug x.1 = .ok row) (hnew : low.lower row.name ∉ p.seen) :
    Taken low debug (lines ++ [x]) { p with rows := p.rows ++ [row], seen := low.lower row.name :: p.seen } where
  valid r hr := by
    rcases List.mem_append.1 hr with hr | hr
    · exact h.valid r hr
    · obtain rfl := List.mem_singleton.1 hr
      obtain ⟨fields, -, hfields⟩ := bind_ok hrow
      exact readRow_valid hfields
  distinct := by
    refine List.pairwise_append.2 ⟨h.distinct, List.pairwise_singleton .., fun a ha b hb heq => ?_⟩
    obtain rfl := List.mem_singleton.1 hb
    exact hnew (heq ▸ h.rows_seen a ha)
  rows_seen r hr := by
    rcases List.mem_append.1 hr with hr | hr
    · exact List.mem_cons_of_mem _ (h.rows_seen r hr)
    · rw [List.mem_singleton.1 hr]
      exact List.mem_cons_self
  seen n := by
    rw [List.mem_cons, h.seen]
    constructor
    · rintro (rfl | ⟨y, hy, hread⟩)
      · exact ⟨x, by simp, row, hrow, rfl⟩
      · exact ⟨y, List.mem_append_left _ hy, hread⟩
    · rintro ⟨y, hy, r, hread, rfl⟩
      rcases List.mem_append.1 hy with hy | hy
      · exact Or.inr ⟨y, hy, r, hread, rfl⟩
      · obtain rfl := List.mem_singleton.1 hy
        rw [hrow] at hread
        cases hread
        exact Or.inl rfl
  said hnone := List.rel_append (h.said hnone) (.cons hrow .nil)
  told before y after hy hoffends := by
    rcases concat_eq_append_cons hy with ⟨rfl, rfl, -⟩ | ⟨after', hlines, -⟩
    · exact absurd ((h.seen _).2 (hoffends row hrow)) hnew
    · exact h.told before y after' hlines hoffends
  errors e he := by
    obtain ⟨before, y, after, why', rfl, hy, rfl⟩ := h.errors e he
    exact ⟨before, y, after ++ [x], why', by simp, hy, rfl⟩

theorem taken_takeAll (low : Lowercase) (debug : Debug) (lines : List (Text × Nat)) :
    Taken low debug lines (takeAll low debug {} lines) := by
  induction lines using List.reverseRecOn with
  | nil => exact ⟨by simp [takeAll], by simp [takeAll], by simp [takeAll], by simp [takeAll], fun _ =>
    .nil, by simp, by simp [takeAll]⟩
  | append_singleton lines x ih =>
    have hlast : takeAll low debug {} (lines ++ [x]) = takeLine low debug (takeAll low debug {} lines) x.2 x.1 := by
      simp [takeAll]
    rw [hlast]
    generalize takeAll low debug {} lines = p at ih ⊢
    unfold takeLine
    split
    · rename_i e hread
      exact ih.offending (fun row hrow => by rw [hread] at hrow; cases hrow) (fun row hrow =>
        by rw [hread] at hrow; cases hrow)
    · rename_i row hread
      have hone : ∀ r, readLine debug x.1 = .ok r → r = row := fun r hr => by
        rw [hread] at hr
        cases hr
        rfl
      split
      · rename_i hseen
        rw [List.contains_iff_mem] at hseen
        exact ih.offending (fun r hr => hone r hr ▸ (ih.seen _).1 hseen) (fun r hr => hone r hr ▸ hseen)
      · rename_i hnew
        exact ih.saying hread (by simpa using hnew)

end Contents

/-! ## The text of rows -/

section Written

variable {debug : Debug} {rows : List ImportRow}

variable {row : ImportRow}

theorem newline_not_mem_cells (h : Valid debug row) : ∀ f ∈ cells row, '\n' ∉ f := by
  refine forall_cells h (by simp) ?_ ?_ ?_ ?_
  · exact fun hmem => absurd ((validHost_ok.1 h.host).2.2.2.2 '\n' hmem) (by decide)
  · exact fun p hmem => absurd (isWhitespace_number hmem) (by decide)
  · exact fun v hv hmem => absurd ((validName_ok.1 hv).2.2.2 '\n' hmem) (by decide)
  · exact fun v hv hmem => absurd ((validDomain_ok.1 hv).2.2.2 '\n' hmem) (by decide)

/-- A line of cells begins and ends with a quote, and has no characters but quotes, commas and those of the cells. -/
theorem quoted_line (f : Text) (fs : List Text) :
    ∃ mid, [','].intercalate ((f :: fs).map quote) = '"' :: (mid ++ ['"']) ∧
    ∀ c ∈ mid, c = '"' ∨ c = ',' ∨ ∃ g ∈ f :: fs, c ∈ g := by
  have hquote : ∀ f : Text, ∀ c ∈ doubled f, c = '"' ∨ c ∈ f := by
    intro f c hc
    obtain ⟨d, hd, hc⟩ := List.mem_flatMap.1 hc
    split at hc
    · exact Or.inl (by simpa using hc)
    · exact Or.inr (List.mem_singleton.1 hc ▸ hd)
  induction fs generalizing f with
  | nil =>
    refine ⟨doubled f, by simp [List.intercalate, quote], fun c hc => ?_⟩
    rcases hquote f c hc with rfl | hc
    · exact Or.inl rfl
    · exact Or.inr (Or.inr ⟨f, List.mem_cons_self, hc⟩)
  | cons g fs ih =>
    obtain ⟨mid, hmid, hchars⟩ := ih g
    refine ⟨doubled f ++ '"' :: ',' :: '"' :: mid, ?_, fun c hc => ?_⟩
    · rw [intercalate_quote, hmid]
      simp [quote]
    · simp only [List.mem_append, List.mem_cons] at hc
      rcases hc with hc | rfl | rfl | rfl | hc
      · rcases hquote f c hc with rfl | hc
        · exact Or.inl rfl
        · exact Or.inr (Or.inr ⟨f, List.mem_cons_self, hc⟩)
      · exact Or.inl rfl
      · exact Or.inr (Or.inl rfl)
      · exact Or.inl rfl
      · rcases hchars c hc with hc | hc | ⟨g', hg', hc⟩
        · exact Or.inl hc
        · exact Or.inr (Or.inl hc)
        · exact Or.inr (Or.inr ⟨g', List.mem_cons_of_mem _ hg', hc⟩)

theorem writeRow_line (h : Valid debug row) : '\n' ∉ writeRow row ∧ trim (writeRow row) = writeRow row ∧
    stripLast '\r' (writeRow row) = none ∧ isSkipped (writeRow row) = false ∧ isHeader (writeRow row) = false := by
  obtain ⟨f, fs, hf⟩ := cells_eq_cons row
  obtain ⟨mid, hmid, hchars⟩ := quoted_line f fs
  rw [writeRow, hf, hmid]
  refine ⟨fun hmem => ?_, stripEnds_of_bare ⟨?_, ?_⟩, ?_, rfl, rfl⟩
  · simp only [List.mem_cons, List.mem_append, List.not_mem_nil, or_false] at hmem
    rcases hmem with hmem | hmem | hmem
    · exact absurd hmem (by decide)
    · rcases hchars _ hmem with hmem | hmem | ⟨g, hg, hmem⟩
      · exact absurd hmem (by decide)
      · exact absurd hmem (by decide)
      · exact newline_not_mem_cells h g (hf ▸ hg) hmem
    · exact absurd hmem (by decide)
  · rintro c ⟨⟩
    decide
  · intro c hc
    rw [← List.cons_append, List.getLast?_append] at hc
    cases hc
    decide
  · cases hstrip : stripLast '\r' ('"' :: (mid ++ ['"'])) with
    | none => rfl
    | some l =>
      rw [stripLast_eq_some, ← List.cons_append] at hstrip
      exact absurd (List.append_inj' hstrip rfl).2 (by decide)

theorem linesOf_writeRows (h : ∀ row ∈ rows, Valid debug row) : linesOf (writeRows rows) = rows.map writeRow := by
  have hsplit : (writeRows rows).splitOn '\n' = rows.map writeRow ++ [[]] := by
    induction rows with
    | nil => rfl
    | cons row rows ih =>
      obtain ⟨hrow, hrows⟩ := List.forall_mem_cons.1 h
      rw [writeRows, List.flatMap_cons, List.append_assoc, List.singleton_append,
        List.splitOn_append_cons_self_of_not_mem (writeRow_line hrow).1]
      exact congrArg (writeRow row :: ·) (ih hrows)
  have hlines : (rows.map writeRow).map (fun l => (stripLast '\r' l).getD l) = rows.map writeRow := by
    rw [List.map_map]
    refine List.map_congr_left fun row hrow => ?_
    rw [Function.comp, (writeRow_line (h row hrow)).2.2.1, Option.getD_none]
  simp only [linesOf, hsplit, List.dropLast_concat, List.getLast?_append, hlines]
  simp

theorem contents_writeRows (h : ∀ row ∈ rows, Valid debug row) :
    contents (writeRows rows) = rows.zipIdx.map fun x => (writeRow x.1, x.2 + 1) := by
  have hkept : kept (linesOf (writeRows rows)).zipIdx = rows.zipIdx.map fun x => (writeRow x.1, x.2 + 1) := by
    rw [linesOf_writeRows h, List.zipIdx_map, kept, List.map_map]
    have hmap : (rows.zipIdx.map ((fun x : Text × Nat => (trim x.1, x.2 + 1)) ∘ Prod.map writeRow id)) =
        rows.zipIdx.map fun x => (writeRow x.1, x.2 + 1) := by
      refine List.map_congr_left fun x hx => ?_
      have hrow := writeRow_line (h x.1 (List.fst_mem_of_mem_zipIdx hx))
      simp only [Function.comp, Prod.map, hrow.2.1, id]
    rw [hmap]
    refine List.filter_eq_self.2 fun y hy => ?_
    obtain ⟨x, hx, rfl⟩ := List.mem_map.1 hy
    simp [(writeRow_line (h x.1 (List.fst_mem_of_mem_zipIdx hx))).2.2.2.1]
  rw [contents, hkept]
  cases hrows : rows.zipIdx with
  | nil => rfl
  | cons x rest =>
    have hx := List.fst_mem_of_mem_zipIdx (hrows ▸ List.mem_cons_self : x ∈ rows.zipIdx)
    rw [List.map_cons, withoutHeader, if_neg (by simp [(writeRow_line (h x.1 hx)).2.2.2.2])]

theorem eq_map_of_forall₂ {α β : Type} {R : α → β → Prop} {f : α → β} {l : List α} {r : List β} (h : List.Forall₂ R l r)
    (hR : ∀ a ∈ l, ∀ b, R a b → b = f a) : r = l.map f := by
  induction h with
  | nil => rfl
  | cons hab _ ih =>
    obtain ⟨hhead, htail⟩ := List.forall_mem_cons.1 hR
    rw [List.map_cons, hhead _ hab, ih htail]

theorem parseImport_writeRows {low : Lowercase} (h : ∀ row ∈ rows, Valid debug row)
    (hnames : rows.Pairwise fun a b => low.lower a.name ≠ low.lower b.name) :
    parseImport low debug (writeRows rows) = .ok rows := by
  have htaken := taken_takeAll low debug (contents (writeRows rows))
  rw [parseImport_eq]
  generalize takeAll low debug {} (contents (writeRows rows)) = p at htaken ⊢
  rw [contents_writeRows h] at htaken
  have hreads : ∀ x ∈ rows.zipIdx, readLine debug (writeRow x.1) = .ok x.1 := fun x hx =>
    readLine_writeRow (h x.1 (List.fst_mem_of_mem_zipIdx hx))
  have hnone : p.errors = [] := by
    refine List.eq_nil_iff_forall_not_mem.2 fun e he => ?_
    obtain ⟨before, x, after, why, hsplit, hoffends, -⟩ := htaken.errors e he
    obtain ⟨as, bs, hzip, rfl, hbs⟩ := List.map_eq_append_iff.1 hsplit
    obtain ⟨b, bs, rfl, rfl, -⟩ := List.map_eq_cons_iff.1 hbs
    obtain ⟨y, hy, row', hread, hsame⟩ := hoffends b.1 (hreads b (by simp [hzip]))
    obtain ⟨a, ha, rfl⟩ := List.mem_map.1 hy
    rw [hreads a (by simp [hzip, ha])] at hread
    cases hread
    -- the two rows are one before the other, so their names differ
    have hrows := congrArg (List.map Prod.fst) hzip
    rw [List.zipIdx_map_fst, List.map_append, List.map_cons] at hrows
    rw [hrows, List.pairwise_append] at hnames
    exact hnames.2.2 a.1 (List.mem_map_of_mem ha) b.1 List.mem_cons_self hsame
  have hsaid := List.forall₂_map_left_iff.1 (htaken.said hnone)
  have hrows : p.rows = rows := by
    rw [← List.zipIdx_map_fst 0 rows]
    exact eq_map_of_forall₂ hsaid fun x hx row hrow => Except.ok.inj (hrow.symm.trans (hreads x hx))
  rw [hnone, List.isEmpty_nil, if_pos rfl, hrows]

end Written

theorem lower_eq_of_nocase {a b : Text} (h : Store.nocase a = Store.nocase b) : low.lower a = low.lower b := by
  rw [← low.lower_ascii a, ← low.lower_ascii b]
  exact congrArg low.lower h

theorem parseImport_apart {text : Text} {rows : List ImportRow} (h : parseImport low debug text = .ok rows) :
    rows.Pairwise fun a b => Store.nocase a.name ≠ Store.nocase b.name := by
  have htaken := taken_takeAll low debug (contents text)
  rw [parseImport_eq] at h
  split at h
  · cases h
    exact htaken.distinct.imp fun hab hsame => hab (lower_eq_of_nocase hsame)
  · cases h

/-- Valid rows with different names, written with every cell in quotes, are read back as they were; and of any text,
either every row has valid fields and the database tells the names apart, or there is an error for every line that
offends, for no other, and no row. -/
theorem server_csv_round_trips (low : Lowercase) (debug : Debug) :
    (∀ rows : List ImportRow, (∀ row ∈ rows, Valid debug row) →
      rows.Pairwise (fun a b => low.lower a.name ≠ low.lower b.name) →
        parseImport low debug (writeRows rows) = .ok rows) ∧
    ∀ text : Text, match parseImport low debug text with
      | .ok rows => (∀ row ∈ rows, Valid debug row) ∧
          rows.Pairwise (fun a b => Store.nocase a.name ≠ Store.nocase b.name) ∧
          ∀ before x after, contents text = before ++ x :: after → ¬ Offends low debug before x.1
      | .error errors => errors ≠ [] ∧
          (∀ before x after, contents text = before ++ x :: after → Offends low debug before x.1 →
            ∃ why, lineError x.2 why ∈ errors) ∧
          ∀ e ∈ errors, ∃ before x after why, contents text = before ++ x :: after ∧ Offends low debug before x.1 ∧
            e = lineError x.2 why := by
  refine ⟨fun rows h hnames => parseImport_writeRows h hnames, fun text => ?_⟩
  have htaken := taken_takeAll low debug (contents text)
  rw [parseImport_eq]
  generalize takeAll low debug {} (contents text) = p at htaken ⊢
  by_cases hnone : p.errors.isEmpty = true
  · rw [if_pos hnone]
    refine ⟨htaken.valid, htaken.distinct.imp fun hab hsame => hab (lower_eq_of_nocase hsame),
      fun before x after hx hoffends => ?_⟩
    obtain ⟨why, hwhy⟩ := htaken.told before x after hx hoffends
    rw [List.isEmpty_iff.1 hnone] at hwhy
    cases hwhy
  · rw [if_neg hnone]
    exact ⟨fun h => hnone (by rw [h]; rfl), htaken.told, htaken.errors⟩

/-- A row with a quote and a comma in its name, no port, and an empty cell for its group -/
theorem server_csv_round_trips_quotes : parseImport dottedLower id
    (writeRows [⟨"a \"b\", c", "h", none, some none, none⟩]) =
      .ok [⟨"a \"b\", c", "h", none, some none, none⟩] :=
  (server_csv_round_trips dottedLower id).1 _
    (List.forall_mem_singleton.2 ⟨by decide, by decide, by simp, by simp, by simp, by simp⟩)
      (List.pairwise_singleton ..)

end WebAccess.Csv
