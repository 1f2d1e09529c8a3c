import WkWebControl.Json.Writer

namespace WebControl.Json

open Reader

/-- What follows a value inside a text. -/
def Ends (rest : List Char) : Prop := ∀ c, rest.head? = some c → c = ',' ∨ c = ']' ∨ c = '}'

theorem Ends.nil : Ends [] := by
  intro c first
  cases first

theorem Ends.cons {c : Char} (closes : c = ',' ∨ c = ']' ∨ c = '}') (rest : List Char) :
    Ends (c :: rest) := by
  intro d first
  cases first
  exact closes

theorem Ends.notDigit {rest : List Char} (ends : Ends rest) :
    rest.takeWhile Char.isDigit = [] ∧ rest.dropWhile Char.isDigit = rest := by
  cases rest with
  | nil => exact ⟨rfl, rfl⟩
  | cons c rest =>
    have other : c.isDigit = false := by
      rcases ends c rfl with rfl | rfl | rfl <;> decide
    simp [other]

theorem toDigits_isDigit (n : Nat) {c : Char} (member : c ∈ Nat.toDigits 10 n) :
    c.isDigit = true := Nat.isDigit_of_mem_toDigits (by decide) (by decide) member

theorem toDigits_head (n : Nat) : (Nat.toDigits 10 n).head? = some '0' → n = 0 := by
  induction n using Nat.strongRecOn with
  | ind n ih =>
    intro zero
    by_cases small : n < 10
    · rw [Nat.toDigits_of_lt_base small] at zero
      simpa using zero
    · rw [Nat.toDigits_of_base_le (by decide) (by omega), List.head?_append] at zero
      cases first : (Nat.toDigits 10 (n / 10)).head? with
      | none => exact absurd (List.head?_eq_none_iff.mp first) Nat.toDigits_ne_nil
      | some c =>
        rw [first, Option.some_or] at zero
        have fewer := ih (n / 10) (by omega) (first.trans zero)
        omega

theorem natural_toDigits (n : Nat) {rest : List Char} (ends : Ends rest) :
    natural (Nat.toDigits 10 n ++ rest) = some (n, rest) := by
  have digits : ∀ c ∈ Nat.toDigits 10 n, c.isDigit = true := fun c member => toDigits_isDigit n member
  have some_ : Nat.toDigits 10 n ≠ [] := Nat.toDigits_ne_nil
  have taken : (Nat.toDigits 10 n ++ rest).takeWhile Char.isDigit = Nat.toDigits 10 n := by
    rw [List.takeWhile_append_of_pos digits, ends.notDigit.1, List.append_nil]
  have left : (Nat.toDigits 10 n ++ rest).dropWhile Char.isDigit = rest := by
    rw [List.dropWhile_append_of_pos digits, ends.notDigit.2]
  have unpadded : ¬ ((Nat.toDigits 10 n).head? = some '0' ∧ Nat.toDigits 10 n ≠ ['0']) := by
    rintro ⟨zero, more⟩
    have same := toDigits_head n zero
    subst same
    exact more (by decide)
  have whole : ¬ (rest.head? = some '.' ∨ rest.head? = some 'e' ∨ rest.head? = some 'E') := by
    rintro (point | small | capital)
    · exact absurd (ends _ point) (by decide)
    · exact absurd (ends _ small) (by decide)
    · exact absurd (ends _ capital) (by decide)
  simp only [natural, taken, left, some_, false_or, unpadded, if_false, whole,
    Nat.ofDigitChars_ten_toDigits]

theorem integer_head (n : Int) : ∃ c rest, Style.integer n = c :: rest ∧ (c = '-' ∨ c.isDigit = true) := by
  unfold Style.integer
  split
  · exact ⟨_, _, rfl, .inl rfl⟩
  · cases digits : Nat.toDigits 10 n.natAbs with
    | nil => exact absurd digits Nat.toDigits_ne_nil
    | cons c rest =>
      have member : c ∈ Nat.toDigits 10 n.natAbs := by rw [digits]; exact List.mem_cons_self
      exact ⟨c, rest, rfl, .inr (toDigits_isDigit _ member)⟩

theorem integer_digits {text : List Char} (plain : ∀ rest, text ≠ '-' :: rest) :
    integer text = (natural text).map fun found => ((found.1 : Int), found.2) := by
  unfold integer
  split
  · exact absurd rfl (plain _)
  · rfl

theorem integer_integer (n : Int) {rest : List Char} (ends : Ends rest) :
    integer (Style.integer n ++ rest) = some (n, rest) := by
  unfold Style.integer
  split
  · have value : -(n.natAbs : Int) = n := by omega
    simp only [List.cons_append, integer, natural_toDigits _ ends, Option.map_some, value]
  · have value : (n.natAbs : Int) = n := by omega
    have plain : ∀ more, Nat.toDigits 10 n.natAbs ++ rest ≠ '-' :: more := by
      intro more eq
      cases digits : Nat.toDigits 10 n.natAbs with
      | nil => exact absurd digits Nat.toDigits_ne_nil
      | cons c others =>
        have member : c ∈ Nat.toDigits 10 n.natAbs := by rw [digits]; exact List.mem_cons_self
        rw [digits, List.cons_append, List.cons.injEq] at eq
        have digit := toDigits_isDigit _ member
        rw [eq.1] at digit
        exact absurd digit (by decide)
    rw [integer_digits plain, natural_toDigits _ ends, Option.map_some, value]

theorem value_integer {c : Char} (head : c = '-' ∨ c.isDigit = true) (fuel : Nat) (text : List Char) :
    value (fuel + 1) (c :: text) = (integer (c :: text)).map fun found => (.int found.1, found.2) := by
  have letter : ∀ d ∈ ['n', 't', 'f', '"', '[', '{'], c ≠ d := by
    intro d member same
    subst same
    rcases head with rfl | digit
    · revert member
      decide
    · have none_ : ['n', 't', 'f', '"', '[', '{'].all (fun d => !d.isDigit) = true := by decide
      have other := List.all_eq_true.mp none_ _ member
      rw [digit] at other
      cases other
  unfold value
  split <;> first
    | rfl
    | next eq =>
      rw [List.cons.injEq] at eq
      exact absurd eq.1 (letter _ (by decide))

theorem string_char {text rest : List Char} {c : Char} (found : char text = some (c, rest))
    (fuel : Nat) :
    string (fuel + 1) text = (string fuel rest).map fun more => (c :: more.1, more.2) := by
  have open_ : ∀ more, text = '"' :: more → False := by
    rintro more rfl
    cases found
  rw [string, found]
  · simp only [Option.bind_eq_bind, Option.bind_some]
    cases string fuel rest <;> rfl
  · exact open_

namespace Style

variable (style : Style)

theorem escape_ne_nil (c : Char) : style.escape c ≠ [] := by
  intro empty
  have found := style.reads c []
  rw [empty] at found
  cases found

theorem string_quoted (cs rest : List Char) (fuel : Nat)
    (enough : (cs.flatMap style.escape ++ '"' :: rest).length ≤ fuel) :
    string fuel (cs.flatMap style.escape ++ '"' :: rest) = some (cs, rest) := by
  induction cs generalizing fuel with
  | nil =>
    unfold string
    rfl
  | cons c cs ih =>
    have some_ := List.length_pos_iff.mpr (style.escape_ne_nil c)
    rw [List.flatMap_cons, List.append_assoc] at enough ⊢
    rw [List.length_append] at enough
    cases fuel with
    | zero => omega
    | succ fuel =>
      rw [string_char (style.reads c _), ih fuel (by omega)]
      rfl

theorem length_quoted (s : String) (rest : List Char) :
    (style.quoted s ++ rest).length = (s.toList.flatMap style.escape ++ '"' :: rest).length + 1 := by
  simp only [quoted, List.cons_append, List.append_assoc, List.nil_append, List.length_cons]

theorem skip_gap {c : Char} (dark : isBlank c = false) (rest : List Char) :
    skip (style.gap ++ c :: rest) = c :: rest := by
  have stop : skip (c :: rest) = c :: rest := by simp [skip, dark]
  unfold gap
  split
  · exact stop
  · exact stop

theorem write_head {json : Json} (plain : Plain json) :
    ∃ c rest, style.write json = c :: rest ∧ isBlank c = false ∧ c ≠ ']' := by
  cases plain with
  | null => exact ⟨_, _, rfl, by decide, by decide⟩
  | bool b => cases b <;> exact ⟨_, _, rfl, by decide, by decide⟩
  | int n =>
    obtain ⟨c, rest, eq, head⟩ := integer_head n
    have dark : isBlank c = false ∧ c ≠ ']' := by
      rcases head with rfl | digit
      · decide
      · constructor
        · rw [isBlank]
          apply Bool.eq_false_iff.mpr
          intro blank
          simp only [Bool.or_eq_true, beq_iff_eq] at blank
          rcases blank with ((rfl | rfl) | rfl) | rfl <;> exact absurd digit (by decide)
        · rintro rfl
          exact absurd digit (by decide)
    exact ⟨c, rest, eq, dark⟩
  | str s => exact ⟨_, _, rfl, by decide, by decide⟩
  | arr items each => cases items <;> exact ⟨_, _, rfl, by decide, by decide⟩
  | obj fields distinct each => cases fields <;> exact ⟨_, _, rfl, by decide, by decide⟩

theorem skip_write {json : Json} (plain : Plain json) (rest : List Char) :
    skip (style.gap ++ (style.write json ++ rest)) = style.write json ++ rest := by
  obtain ⟨c, more, eq, dark, -⟩ := style.write_head plain
  rw [eq, List.cons_append, style.skip_gap dark]

theorem moreItems_ends (items : List Json) (rest : List Char) :
    Ends (style.moreItems items ++ rest) := by
  cases items with
  | nil => exact Ends.cons (.inr (.inl rfl)) rest
  | cons item items => exact Ends.cons (.inl rfl) _

theorem moreFields_ends (fields : List (String × Json)) (rest : List Char) :
    Ends (style.moreFields fields ++ rest) := by
  cases fields with
  | nil => exact Ends.cons (.inr (.inr rfl)) rest
  | cons field fields => exact Ends.cons (.inl rfl) _

/-- The reader takes back what the writer has written, whatever follows. -/
def Reads (json : Json) : Prop :=
  ∀ fuel rest, Ends rest → 2 * (style.write json ++ rest).length < fuel →
    value fuel (style.write json ++ rest) = some (json, rest)

theorem items_moreItems {item : Json} {items : List Json}
    (plain : ∀ j ∈ item :: items, Plain j) (each : ∀ j ∈ item :: items, style.Reads j)
    (fuel : Nat) (rest : List Char)
    (enough : 2 * (style.write item ++ (style.moreItems items ++ rest)).length + 1 < fuel) :
    Reader.items fuel (style.write item ++ (style.moreItems items ++ rest)) =
      some (item :: items, rest) := by
  induction items generalizing item fuel with
  | nil =>
    cases fuel with
    | zero => omega
    | succ fuel =>
      have first := each item List.mem_cons_self fuel _ (style.moreItems_ends [] rest) (by omega)
      rw [Reader.items, first]
      rfl
  | cons next items ih =>
    cases fuel with
    | zero => omega
    | succ fuel =>
      have first := each item List.mem_cons_self fuel _ (style.moreItems_ends (next :: items) rest)
        (by omega)
      have after : skip (style.moreItems (next :: items) ++ rest) =
          ',' :: (style.gap ++ (style.write next ++ (style.moreItems items ++ rest))) := by
        simp [moreItems, skip, isBlank]
      have blank := style.skip_write (plain next (by simp)) (style.moreItems items ++ rest)
      have others := ih (fun j member => plain j (List.mem_cons_of_mem _ member))
        (fun j member => each j (List.mem_cons_of_mem _ member)) fuel (by
          simp only [moreItems, List.length_append, List.length_cons] at enough ⊢
          omega)
      rw [Reader.items, first]
      simp only [Option.bind_eq_bind, Option.bind_some, after, blank, others]
      rfl

theorem skip_colon (rest : List Char) : skip (':' :: rest) = ':' :: rest := by simp [skip, isBlank]

theorem members_field (key : String) (item : Json) (plain : Plain item) (reads : style.Reads item)
    {after : List Char} (ends : Ends after) (fuel : Nat)
    (enough : 2 * (style.quoted key ++ ':' :: (style.gap ++ (style.write item ++ after))).length <
      fuel) :
    string fuel (key.toList.flatMap style.escape ++
        '"' :: ':' :: (style.gap ++ (style.write item ++ after))) =
      some (key.toList, ':' :: (style.gap ++ (style.write item ++ after))) ∧
    value fuel (skip (style.gap ++ (style.write item ++ after))) = some (item, after) := by
  rw [length_quoted] at enough
  have name := style.string_quoted key.toList (':' :: (style.gap ++ (style.write item ++ after)))
    fuel (by omega)
  have inside := reads fuel after ends (by
    simp only [List.length_append, List.length_cons] at enough ⊢
    omega)
  rw [style.skip_write plain after]
  exact ⟨name, inside⟩

theorem members_moreFields (key : String) (item : Json) (fields : List (String × Json))
    (plain : ∀ field ∈ (key, item) :: fields, Plain field.2)
    (each : ∀ field ∈ (key, item) :: fields, style.Reads field.2) (fuel : Nat) (rest : List Char)
    (enough : 2 * (style.quoted key ++ ':' :: (style.gap ++
      (style.write item ++ (style.moreFields fields ++ rest)))).length + 1 < fuel) :
    members fuel (style.quoted key ++ ':' :: (style.gap ++
      (style.write item ++ (style.moreFields fields ++ rest)))) =
      some ((key, item) :: fields, rest) := by
  induction fields generalizing key item fuel with
  | nil =>
    cases fuel with
    | zero => omega
    | succ fuel =>
      have first := style.members_field key item (plain _ List.mem_cons_self)
        (each _ List.mem_cons_self) (style.moreFields_ends [] rest) fuel (by omega)
      rw [quoted, List.cons_append, List.append_assoc, List.singleton_append, members, first.1]
      simp only [Option.bind_eq_bind, Option.bind_some, skip_colon, first.2, String.ofList_toList]
      rfl
  | cons next fields ih =>
    cases fuel with
    | zero => omega
    | succ fuel =>
      have first := style.members_field key item (plain _ List.mem_cons_self)
        (each _ List.mem_cons_self) (style.moreFields_ends (next :: fields) rest) fuel (by omega)
      have after : skip (style.moreFields (next :: fields) ++ rest) = ',' :: (style.gap ++
          (style.quoted next.1 ++ ':' :: (style.gap ++
            (style.write next.2 ++ (style.moreFields fields ++ rest))))) := by
        simp [moreFields, skip, isBlank]
      have open_ : skip (style.gap ++ (style.quoted next.1 ++ ':' :: (style.gap ++
          (style.write next.2 ++ (style.moreFields fields ++ rest))))) =
          style.quoted next.1 ++ ':' :: (style.gap ++
            (style.write next.2 ++ (style.moreFields fields ++ rest))) :=
        style.skip_gap (by decide) _
      have others := ih next.1 next.2 (fun field member => plain field (List.mem_cons_of_mem _ member))
        (fun field member => each field (List.mem_cons_of_mem _ member)) fuel (by
          simp only [moreFields, List.length_append, List.length_cons] at enough ⊢
          omega)
      rw [quoted, List.cons_append, List.append_assoc, List.singleton_append, members, first.1]
      simp only [Option.bind_eq_bind, Option.bind_some, skip_colon, first.2, after, open_, others,
        String.ofList_toList]
      rfl

theorem value_items (fuel : Nat) {text : List Char} (open_ : ∀ rest, text ≠ ']' :: rest)
    (dark : skip text = text) :
    value (fuel + 1) ('[' :: text) =
      (Reader.items fuel text).map fun found => (.arr found.1, found.2) := by
  unfold value
  simp only [dark]

theorem value_members (fuel : Nat) {text rest : List Char} {fields : List (String × Json)}
    (open_ : ∀ rest, text ≠ '}' :: rest) (dark : skip text = text)
    (found : members fuel text = some (fields, rest)) (distinct : (fields.map Prod.fst).Nodup) :
    value (fuel + 1) ('{' :: text) = some (.obj fields, rest) := by
  unfold value
  simp only [dark, found, Option.bind_eq_bind, Option.bind_some, distinct, if_true]
  rfl

theorem reads_plain {json : Json} (plain : Plain json) : style.Reads json := by
  induction plain with
  | null =>
    intro fuel rest ends enough
    cases fuel with
    | zero => omega
    | succ fuel => rfl
  | bool b =>
    intro fuel rest ends enough
    cases fuel with
    | zero => omega
    | succ fuel => cases b <;> rfl
  | int n =>
    intro fuel rest ends enough
    obtain ⟨c, more, eq, head⟩ := integer_head n
    have number := integer_integer n ends
    cases fuel with
    | zero => omega
    | succ fuel =>
      rw [eq, List.cons_append] at number
      rw [write, eq, List.cons_append, value_integer head, number]
      rfl
  | str s =>
    intro fuel rest ends enough
    cases fuel with
    | zero => omega
    | succ fuel =>
      rw [write, length_quoted] at enough
      have inside := style.string_quoted s.toList rest fuel (by omega)
      rw [write, quoted, List.cons_append, List.append_assoc, List.singleton_append, value, inside,
        Option.map_some]
      simp only [String.ofList_toList]
  | arr items each ih =>
    intro fuel rest ends enough
    cases fuel with
    | zero => omega
    | succ fuel =>
      cases items with
      | nil => rfl
      | cons item items =>
        obtain ⟨c, more, eq, dark, inside⟩ := style.write_head (each item List.mem_cons_self)
        have read := style.items_moreItems each ih fuel rest (by
          simp only [write, List.length_append, List.length_cons] at enough ⊢
          omega)
        rw [write, List.cons_append, List.append_assoc, value_items fuel, read]
        · rfl
        · intro after same
          rw [eq, List.cons_append, List.cons.injEq] at same
          exact inside same.1
        · rw [eq, List.cons_append]
          simp [skip, dark]
  | obj fields distinct each ih =>
    intro fuel rest ends enough
    cases fuel with
    | zero => omega
    | succ fuel =>
      cases fields with
      | nil => rfl
      | cons field fields =>
        have read := style.members_moreFields field.1 field.2 fields each ih fuel rest (by
          simp only [write, List.length_append, List.length_cons] at enough ⊢
          omega)
        -- a reader keeps one field for each key, so the keys have to be distinct
        simp only [write, List.cons_append, List.append_assoc]
        refine value_members fuel ?_ ?_ read distinct
        · intro after same
          cases same
        · simp [quoted, skip, isBlank]

theorem read_text {json : Json} (plain : Plain json) : read (style.text json) = some json := by
  obtain ⟨c, more, eq, dark, -⟩ := style.write_head plain
  have start : skip (style.write json) = style.write json := by simp [eq, skip, dark]
  have whole := style.reads_plain plain (2 * (style.write json).length + 1) [] Ends.nil (by simp)
  rw [List.append_nil] at whole
  rw [read, text, decode_utf8]
  simp only [Option.bind_eq_bind, Option.bind_some, start, whole]
  rfl

structure Throughout (style : Style) (p : Char → Prop) : Prop where
  printable : ∀ c, Printable c → p c
  escape : ∀ c, ∀ d ∈ style.escape c, p d

section Throughout

variable {style} {p : Char → Prop} (holds : style.Throughout p)
include holds

theorem Throughout.integer (n : Int) : ∀ c ∈ Style.integer n, p c := by
  have digits : ∀ k, ∀ c ∈ Nat.toDigits 10 k, p c := by
    intro k c member
    apply holds.printable
    have digit := toDigits_isDigit k member
    simp only [Char.isDigit, Bool.and_eq_true, decide_eq_true_eq] at digit
    exact ⟨Char.le_trans (by decide) digit.1, Char.le_trans digit.2 (by decide)⟩
  unfold Style.integer
  split
  · rw [List.forall_mem_cons]
    exact ⟨holds.printable _ (by decide), digits _⟩
  · exact digits _

theorem Throughout.quoted (s : String) : ∀ c ∈ style.quoted s, p c := by
  have quote : p '"' := holds.printable _ (by decide)
  have inside : ∀ c ∈ s.toList.flatMap style.escape, p c := by
    intro d member
    obtain ⟨c, -, part⟩ := List.mem_flatMap.mp member
    exact holds.escape c d part
  simp only [Style.quoted, List.forall_mem_cons, List.forall_mem_append, quote, true_and,
    List.not_mem_nil, false_imp_iff, implies_true, and_true]
  exact inside

theorem Throughout.gap : ∀ c ∈ style.gap, p c := by
  have blank : p ' ' := holds.printable _ (by decide)
  unfold Style.gap
  split
  · simpa using blank
  · simp

theorem Throughout.moreItems {items : List Json} (each : ∀ j ∈ items, ∀ c ∈ style.write j, p c) :
    ∀ c ∈ style.moreItems items, p c := by
  have comma : p ',' := holds.printable _ (by decide)
  have close : p ']' := holds.printable _ (by decide)
  induction items with
  | nil => simpa [Style.moreItems] using close
  | cons item items ih =>
    have others := ih fun j member => each j (List.mem_cons_of_mem _ member)
    simp only [Style.moreItems, List.forall_mem_cons, List.forall_mem_append]
    exact ⟨comma, holds.gap, each item List.mem_cons_self, others⟩

theorem Throughout.moreFields {fields : List (String × Json)}
    (each : ∀ field ∈ fields, ∀ c ∈ style.write field.2, p c) : ∀ c ∈ style.moreFields fields, p c := by
  have comma : p ',' := holds.printable _ (by decide)
  have colon : p ':' := holds.printable _ (by decide)
  have close : p '}' := holds.printable _ (by decide)
  induction fields with
  | nil => simpa [Style.moreFields] using close
  | cons field fields ih =>
    have others := ih fun f member => each f (List.mem_cons_of_mem _ member)
    simp only [Style.moreFields, List.forall_mem_cons, List.forall_mem_append]
    exact ⟨comma, holds.gap, holds.quoted _, colon, holds.gap, each field List.mem_cons_self, others⟩

theorem Throughout.write {json : Json} (plain : Plain json) : ∀ c ∈ style.write json, p c := by
  have literal : ∀ text : List Char, text.all (fun c => decide (Printable c)) = true → ∀ c ∈ text, p c :=
    fun text all c member => holds.printable c (printable_of_all all c member)
  induction plain with
  | null => exact literal ['n', 'u', 'l', 'l'] (by decide)
  | bool b =>
    cases b with
    | false => exact literal ['f', 'a', 'l', 's', 'e'] (by decide)
    | true => exact literal ['t', 'r', 'u', 'e'] (by decide)
  | int n => exact holds.integer n
  | str s => exact holds.quoted s
  | arr items each ih =>
    cases items with
    | nil => exact literal ['[', ']'] (by decide)
    | cons item items =>
      have others := holds.moreItems fun j member => ih j (List.mem_cons_of_mem _ member)
      simp only [Style.write, List.forall_mem_cons, List.forall_mem_append]
      exact ⟨holds.printable _ (by decide), ih item List.mem_cons_self, others⟩
  | obj fields distinct each ih =>
    cases fields with
    | nil => exact literal ['{', '}'] (by decide)
    | cons field fields =>
      have others := holds.moreFields fun f member => ih f (List.mem_cons_of_mem _ member)
      simp only [Style.write, List.forall_mem_cons, List.forall_mem_append]
      exact ⟨holds.printable _ (by decide), holds.quoted _, holds.printable _ (by decide), holds.gap,
        ih field List.mem_cons_self, others⟩

end Throughout

theorem write_clean {json : Json} (plain : Plain json) : '\n' ∉ style.write json := by
  have holds : style.Throughout (· ≠ '\n') := by
    refine ⟨fun c printable => ?_, fun c d member => ?_⟩
    · rintro rfl
      exact absurd printable (by decide)
    · rintro rfl
      exact style.clean c member
  exact fun member => holds.write plain _ member rfl

theorem dumps_printable {json : Json} (plain : Plain json) : ∀ c ∈ dumps.write json, Printable c :=
  Throughout.write ⟨fun _ printable => printable, escapeAscii_printable⟩ plain

end Style

theorem ascii_utf8EncodeChar {b : UInt8} (ascii : b.toNat < 128) {c : Char}
    (member : b ∈ String.utf8EncodeChar c) : c.toNat = b.toNat := by
  have leading : ∀ n, 128 ≤ n % 256 → b ≠ UInt8.ofNat n := by
    rintro n high rfl
    rw [UInt8.toNat_ofNat'] at ascii
    omega
  have value : c.val.toNat = c.toNat := rfl
  rw [String.utf8EncodeChar, value] at member
  split at member
  · have same := List.mem_singleton.mp member
    rw [same, UInt8.toNat_ofNat']
    omega
  · split at member
    · simp only [List.mem_cons, List.not_mem_nil, or_false] at member
      rcases member with same | same <;> exact absurd same (leading _ (by omega))
    · split at member
      · simp only [List.mem_cons, List.not_mem_nil, or_false] at member
        rcases member with same | same | same <;> exact absurd same (leading _ (by omega))
      · simp only [List.mem_cons, List.not_mem_nil, or_false] at member
        rcases member with same | same | same | same <;> exact absurd same (leading _ (by omega))

theorem utf8_clean {text : List Char} (clean : '\n' ∉ text) : 10 ∉ utf8 text := by
  intro member
  obtain ⟨c, inside, byte⟩ := List.mem_flatMap.mp member
  have same : c.toNat = 10 := ascii_utf8EncodeChar (by decide) byte
  have break_ : c = '\n' := Char.toNat_inj.mp same
  rw [break_] at inside
  exact clean inside

theorem utf8_printable {text : List Char} (printable : ∀ c ∈ text, Printable c) :
    utf8 text = text.map fun c => UInt8.ofNat c.toNat := by
  induction text with
  | nil => rfl
  | cons c text ih =>
    have small : c.val.toNat ≤ 127 := by
      have bound : c.toNat ≤ 126 := (printable c List.mem_cons_self).2
      exact Nat.le_succ_of_le bound
    have rest := ih fun d member => printable d (List.mem_cons_of_mem _ member)
    rw [utf8, List.flatMap_cons, List.map_cons, ← utf8, rest, String.utf8EncodeChar, if_pos small]
    rfl

namespace Style

variable (style : Style)

theorem text_clean {json : Json} (plain : Plain json) : 10 ∉ style.text json :=
  utf8_clean (style.write_clean plain)

end Style

end WebControl.Json
