import StorybookStorage.Python.Json

/-!
# JSON texts

A printer with the separators of `json.dumps` and a reader for what it prints.
Only the quote and the backslash are escaped.  Of the floats the reader knows
those that are not finite.
-/

namespace Python

namespace Json

def quoteChar (c : Char) : Text :=
  if c = '"' ∨ c = '\\' then ['\\', c] else [c]

def quote (s : Text) : Text := '"' :: (s.flatMap quoteChar ++ ['"'])

def comma : Text := text ", "

def colon : Text := text ": "

def dumps : Json -> Text
  | null => text "null"
  | bool true => text "true"
  | bool false => text "false"
  | int n => intRepr n
  | float _ => text "NaN"
  | str s => quote s
  | arr [] => text "[]"
  | arr (v :: rest) => '[' :: (dumps v ++ dumpItems rest)
  | obj [] => text "\x7b\x7d"
  | obj ((k, v) :: rest) =>
      '\x7b' :: (quote k ++ colon ++ dumps v ++ dumpFields rest)
where
  dumpItems : List Json -> Text
    | [] => [']']
    | v :: rest => comma ++ dumps v ++ dumpItems rest
  dumpFields : List (Text × Json) -> Text
    | [] => ['\x7d']
    | (k, v) :: rest => comma ++ quote k ++ colon ++ dumps v ++ dumpFields rest

def literal (word : Text) (v : Json) (t : Text) : Option (Json × Text) :=
  if startsWith t word then some (v, t.drop word.length) else none

def unquote : Text -> Option (Text × Text)
  | [] => none
  | '"' :: rest => some ([], rest)
  | '\\' :: c :: rest => (unquote rest).map fun r => (c :: r.1, r.2)
  | c :: rest => (unquote rest).map fun r => (c :: r.1, r.2)

def digits (t : Text) : Option (Nat × Text) :=
  let front := t.takeWhile Char.isDigit
  if front = [] then
    none
  else
    some (Nat.ofDigitChars 10 front 0, t.dropWhile Char.isDigit)

def number : Text -> Option (Json × Text)
  | '-' :: rest =>
      ((digits rest).map fun r => (int (-r.1), r.2)).orElse fun _ =>
        literal (text "Infinity") (float (PyFloat.infinity true)) rest
  | t => (digits t).map fun r => (int r.1, r.2)

def skip (word : Text) (t : Text) : Option Text :=
  if startsWith t word then some (t.drop word.length) else none

mutual

def value : Nat -> Text -> Option (Json × Text)
  | 0, _ => none
  | n + 1, t =>
      match t with
      | 'n' :: _ => literal (text "null") null t
      | 't' :: _ => literal (text "true") (bool true) t
      | 'f' :: _ => literal (text "false") (bool false) t
      | 'N' :: _ => literal (text "NaN") (float PyFloat.nan) t
      | 'I' :: _ =>
          literal (text "Infinity") (float (PyFloat.infinity false)) t
      | '"' :: rest => (unquote rest).map fun r => (str r.1, r.2)
      | '[' :: ']' :: rest => some (arr [], rest)
      | '[' :: rest => do
          let (v, rest) ← value n rest
          let (vs, rest) ← items n rest
          some (arr (v :: vs), rest)
      | '\x7b' :: '\x7d' :: rest => some (obj [], rest)
      | '\x7b' :: rest => do
          let (kv, rest) ← member n rest
          let (kvs, rest) ← members n rest
          some (obj (kv :: kvs), rest)
      | _ => number t

def items : Nat -> Text -> Option (List Json × Text)
  | 0, _ => none
  | n + 1, t =>
      match t with
      | ']' :: rest => some ([], rest)
      | _ => do
          let rest ← skip comma t
          let (v, rest) ← value n rest
          let (vs, rest) ← items n rest
          some (v :: vs, rest)

def member : Nat -> Text -> Option ((Text × Json) × Text)
  | 0, _ => none
  | n + 1, t =>
      match t with
      | '"' :: rest => do
          let (k, rest) ← unquote rest
          let rest ← skip colon rest
          let (v, rest) ← value n rest
          some ((k, v), rest)
      | _ => none

def members : Nat -> Text -> Option (List (Text × Json) × Text)
  | 0, _ => none
  | n + 1, t =>
      match t with
      | '\x7d' :: rest => some ([], rest)
      | _ => do
          let rest ← skip comma t
          let (kv, rest) ← member n rest
          let (kvs, rest) ← members n rest
          some (kv :: kvs, rest)

end

def loads (t : Text) : Except Unit Json :=
  match value (t.length + 1) t with
  | some (v, []) => Except.ok v
  | _ => Except.error ()

/-!
## Reading back
-/

theorem unquote_cons {c : Char} (hquote : c ≠ '"') (hslash : c ≠ '\\')
    (rest : Text) :
    unquote (c :: rest) = (unquote rest).map fun r => (c :: r.1, r.2) := by
  conv_lhs => unfold unquote
  split
  · rename_i h
    cases h
  · rename_i h
    exact absurd (List.cons.inj h).left hquote
  · rename_i h
    exact absurd (List.cons.inj h).left hslash
  · rename_i h
    rcases List.cons.inj h with ⟨rfl, rfl⟩
    rfl

theorem unquote_quote (s rest : Text) :
    unquote (s.flatMap quoteChar ++ '"' :: rest) = some (s, rest) := by
  induction s with
  | nil => rfl
  | cons c s ih =>
      rw [List.flatMap_cons, List.append_assoc]
      by_cases hc : c = '"' ∨ c = '\\'
      · rw [show quoteChar c = ['\\', c] from if_pos hc]
        show (unquote (s.flatMap quoteChar ++ '"' :: rest)).map _ = _
        rw [ih]
        rfl
      · rw [show quoteChar c = [c] from if_neg hc]
        rw [not_or] at hc
        rw [List.singleton_append, unquote_cons hc.left hc.right, ih]
        rfl

def Ends (rest : Text) : Prop := forall c, rest.head? = some c -> c.isDigit = false

theorem digits_toDigits (n : Nat) {rest : Text} (h : Ends rest) :
    digits (Nat.toDigits 10 n ++ rest) = some (n, rest) := by
  have hall : forall c, c ∈ Nat.toDigits 10 n -> c.isDigit = true := fun c hc =>
    Nat.isDigit_of_mem_toDigits (by decide) (by decide) hc
  have htake : (Nat.toDigits 10 n ++ rest).takeWhile Char.isDigit =
      Nat.toDigits 10 n := by
    rw [List.takeWhile_append_of_pos hall]
    cases rest with
    | nil => simp
    | cons c rest => rw [List.takeWhile_cons_of_neg (by simp [h c rfl])]; simp
  have hdrop : (Nat.toDigits 10 n ++ rest).dropWhile Char.isDigit = rest := by
    rw [List.dropWhile_append_of_pos hall]
    cases rest with
    | nil => rfl
    | cons c rest => rw [List.dropWhile_cons_of_neg (by simp [h c rfl])]
  unfold digits
  rw [htake, hdrop, if_neg Nat.toDigits_ne_nil, Nat.ofDigitChars_ten_toDigits]

theorem number_intRepr (n : Int) {rest : Text} (h : Ends rest) :
    number (intRepr n ++ rest) = some (int n, rest) := by
  unfold intRepr
  by_cases hn : n < 0
  · rw [if_pos hn]
    show ((digits (Nat.toDigits 10 n.natAbs ++ rest)).map _).orElse _ = _
    rw [digits_toDigits _ h]
    show some (int (-(n.natAbs : Int)), rest) = _
    rw [show -(n.natAbs : Int) = n from by omega]
  · rw [if_neg hn]
    unfold number
    split
    · rename_i htext
      have hmem : '-' ∈ Nat.toDigits 10 n.natAbs := by
        cases hd : Nat.toDigits 10 n.natAbs with
        | nil => exact absurd hd Nat.toDigits_ne_nil
        | cons c cs =>
            rw [hd] at htext
            rw [(List.cons.inj htext).left]
            simp
      exact absurd (Nat.isDigit_of_mem_toDigits (by decide) (by decide) hmem)
        (by decide)
    · rw [digits_toDigits _ h]
      show some (int (n.natAbs : Int), rest) = _
      rw [show (n.natAbs : Int) = n from by omega]

theorem skip_append (word rest : Text) : skip word (word ++ rest) = some rest := by
  simp [skip, startsWith]

theorem ends_items (vs : List Json) (rest : Text) :
    Ends (dumps.dumpItems vs ++ rest) := by
  intro c hc
  cases vs with
  | nil => cases hc; decide
  | cons v vs => cases hc; decide

theorem ends_fields (kvs : List (Text × Json)) (rest : Text) :
    Ends (dumps.dumpFields kvs ++ rest) := by
  intro c hc
  cases kvs with
  | nil => cases hc; decide
  | cons kv kvs => cases hc; decide

theorem intRepr_head (n : Int) :
    exists c t, intRepr n = c :: t ∧ (c = '-' ∨ c.isDigit = true) := by
  unfold intRepr
  split
  · exact ⟨'-', _, rfl, Or.inl rfl⟩
  · cases hd : Nat.toDigits 10 n.natAbs with
    | nil => exact absurd hd Nat.toDigits_ne_nil
    | cons c cs =>
        refine ⟨c, cs, rfl, Or.inr ?_⟩
        exact Nat.isDigit_of_mem_toDigits (b := 10) (n := n.natAbs) (by decide)
          (by decide) (by rw [hd]; simp)

theorem dumps_head (v : Json) : exists c t, dumps v = c :: t ∧ c ≠ ']' := by
  cases v with
  | int n =>
      rcases intRepr_head n with ⟨c, t, ht, hc⟩
      refine ⟨c, t, ?_, ?_⟩
      · simpa only [dumps] using ht
      · intro heq
        subst heq
        exact absurd hc (by decide)
  | bool b => cases b <;> exact ⟨_, _, rfl, by decide⟩
  | arr vs => cases vs <;> exact ⟨_, _, rfl, by decide⟩
  | obj kvs => cases kvs <;> exact ⟨_, _, rfl, by decide⟩
  | _ => exact ⟨_, _, rfl, by decide⟩

theorem value_number {n : Nat} {c : Char} {t : Text}
    (h : c = '-' ∨ c.isDigit = true) :
    value (n + 1) (c :: t) = number (c :: t) := by
  unfold value
  split
  all_goals
    first
      | rfl
      | (rename_i heq
         rw [(List.cons.inj heq).left] at h
         exact absurd h (by decide))

theorem value_arr {n : Nat} {c : Char} {t : Text} (h : c ≠ ']') :
    value (n + 1) ('[' :: c :: t) =
      (value n (c :: t)).bind fun r =>
        (items n r.2).bind fun r' => some (arr (r.1 :: r'.1), r'.2) := by
  rw [value]
  · rfl
  · intro rest heq
    exact h (List.cons.inj heq).left

theorem items_comma (n : Nat) (t : Text) :
    items (n + 1) (comma ++ t) =
      (value n t).bind fun r =>
        (items n r.2).bind fun r' => some (r.1 :: r'.1, r'.2) := by
  show ((skip comma (comma ++ t)).bind fun rest =>
    (value n rest).bind fun r =>
      (items n r.2).bind fun r' => some (r.1 :: r'.1, r'.2)) = _
  rw [skip_append]
  rfl

theorem members_comma (n : Nat) (t : Text) :
    members (n + 1) (comma ++ t) =
      (member n t).bind fun r =>
        (members n r.2).bind fun r' => some (r.1 :: r'.1, r'.2) := by
  show ((skip comma (comma ++ t)).bind fun rest =>
    (member n rest).bind fun r =>
      (members n r.2).bind fun r' => some (r.1 :: r'.1, r'.2)) = _
  rw [skip_append]
  rfl

theorem member_quote {n : Nat} {k t : Text} {v : Json} {rest : Text}
    (h : value n t = some (v, rest)) :
    member (n + 1) (quote k ++ colon ++ t) = some ((k, v), rest) := by
  have hshape : quote k ++ colon ++ t =
      '"' :: (k.flatMap quoteChar ++ '"' :: (colon ++ t)) := by
    simp [quote]
  rw [hshape]
  show (unquote _).bind _ = _
  rw [unquote_quote]
  show ((skip colon (colon ++ t)).bind fun rest =>
    (value n rest).bind fun r => some ((k, r.1), r.2)) = _
  rw [skip_append]
  show (value n t).bind _ = _
  rw [h]
  rfl

mutual

/-- Reading a printed value, with fuel for each of its characters. -/
theorem value_dumps : forall (v : Json), v.Storable -> forall (n : Nat)
    (rest : Text), (dumps v).length ≤ n -> Ends rest ->
      value n (dumps v ++ rest) = some (v, rest)
  | null, _, n + 1, rest, _, _ => by rfl
  | bool true, _, n + 1, rest, _, _ => by rfl
  | bool false, _, n + 1, rest, _, _ => by rfl
  | int i, _, n, rest, hn, hrest => by
      rcases intRepr_head i with ⟨c, t, ht, hc⟩
      have hprint : dumps (int i) = c :: t := by
        simpa only [dumps] using ht
      rw [hprint] at hn ⊢
      cases n with
      | zero => simp at hn
      | succ n =>
          rw [List.cons_append, value_number hc, ← List.cons_append, ← ht]
          exact number_intRepr i hrest
  | str s, _, n + 1, rest, _, _ => by
      have hshape : dumps (str s) ++ rest =
          '"' :: (s.flatMap quoteChar ++ '"' :: rest) := by
        simp [dumps, quote]
      rw [hshape]
      show (unquote _).map _ = _
      rw [unquote_quote]
      rfl
  | arr [], _, n + 1, rest, _, _ => by rfl
  | arr (v :: vs), hs, n + 1, rest, hn, _ => by
      have hlen : (dumps v).length + (dumps.dumpItems vs).length ≤ n := by
        simpa [dumps] using hn
      rcases dumps_head v with ⟨c, t, ht, hc⟩
      have hfirst := value_dumps v hs.left n (dumps.dumpItems vs ++ rest)
        (by omega) (ends_items vs rest)
      have hmore := items_dumps vs hs.right n rest (by omega)
      have hshape : dumps (arr (v :: vs)) ++ rest =
          '[' :: c :: (t ++ (dumps.dumpItems vs ++ rest)) := by
        simp [dumps, ht]
      rw [hshape, value_arr hc]
      rw [ht] at hfirst
      show (value n (c :: t ++ (dumps.dumpItems vs ++ rest))).bind _ = _
      rw [hfirst]
      show (items n (dumps.dumpItems vs ++ rest)).bind _ = _
      rw [hmore]
      rfl
  | obj [], _, n + 1, rest, _, _ => by rfl
  | obj ((k, v) :: kvs), hs, n + 1, rest, hn, _ => by
      have hlen : 1 + (dumps v).length + (dumps.dumpFields kvs).length ≤ n := by
        simp [dumps, quote] at hn
        omega
      cases n with
      | zero => omega
      | succ n =>
          have hfirst := member_quote (k := k) (value_dumps v hs.right.left n
            (dumps.dumpFields kvs ++ rest) (by omega) (ends_fields kvs rest))
          have hmore := members_dumps kvs hs.right.right (n + 1) rest (by omega)
          have hshape : dumps (obj ((k, v) :: kvs)) ++ rest =
              '\x7b' :: (quote k ++ colon ++
                (dumps v ++ (dumps.dumpFields kvs ++ rest))) := by
            simp [dumps]
          rw [hshape]
          show (member (n + 1) (quote k ++ colon ++
            (dumps v ++ (dumps.dumpFields kvs ++ rest)))).bind _ = _
          rw [hfirst]
          show (members (n + 1) (dumps.dumpFields kvs ++ rest)).bind _ = _
          rw [hmore]
          rfl

theorem items_dumps : forall (vs : List Json), Storable.StorableAll vs ->
    forall (n : Nat) (rest : Text), (dumps.dumpItems vs).length ≤ n ->
      items n (dumps.dumpItems vs ++ rest) = some (vs, rest)
  | [], _, n + 1, rest, _ => by rfl
  | v :: vs, hs, n + 1, rest, hn => by
      have hlen : (dumps v).length + (dumps.dumpItems vs).length ≤ n := by
        simp [dumps.dumpItems, comma, text] at hn
        omega
      have hfirst := value_dumps v hs.left n (dumps.dumpItems vs ++ rest)
        (by omega) (ends_items vs rest)
      have hmore := items_dumps vs hs.right n rest (by omega)
      have hshape : dumps.dumpItems (v :: vs) ++ rest =
          comma ++ (dumps v ++ (dumps.dumpItems vs ++ rest)) := by
        simp [dumps.dumpItems]
      rw [hshape, items_comma, hfirst]
      show (items n (dumps.dumpItems vs ++ rest)).bind _ = _
      rw [hmore]
      rfl

theorem members_dumps : forall (kvs : List (Text × Json)),
    Storable.StorableFields kvs -> forall (n : Nat) (rest : Text),
      (dumps.dumpFields kvs).length ≤ n ->
      members n (dumps.dumpFields kvs ++ rest) = some (kvs, rest)
  | [], _, n + 1, rest, _ => by rfl
  | (k, v) :: kvs, hs, n + 1, rest, hn => by
      have hlen : 1 + (dumps v).length + (dumps.dumpFields kvs).length ≤ n := by
        simp [dumps.dumpFields, comma, text, quote] at hn
        omega
      cases n with
      | zero => omega
      | succ n =>
          have hfirst := member_quote (k := k) (value_dumps v hs.left n
            (dumps.dumpFields kvs ++ rest) (by omega) (ends_fields kvs rest))
          have hmore := members_dumps kvs hs.right (n + 1) rest (by omega)
          have hshape : dumps.dumpFields ((k, v) :: kvs) ++ rest =
              comma ++ (quote k ++ colon ++
                (dumps v ++ (dumps.dumpFields kvs ++ rest))) := by
            simp [dumps.dumpFields]
          rw [hshape, members_comma, hfirst]
          show (members (n + 1) (dumps.dumpFields kvs ++ rest)).bind _ = _
          rw [hmore]
          rfl

end

theorem loads_dumps (v : Json) (h : v.Storable) :
    loads (dumps v) = Except.ok v := by
  have hread := value_dumps v h ((dumps v).length + 1) [] (by omega)
    (fun c hc => nomatch hc)
  rw [List.append_nil] at hread
  unfold loads
  rw [hread]

theorem loads_single {k t : Text} {v : Json}
    (h : forall n rest, value (n + 1) (t ++ rest) = some (v, rest)) :
    loads ('\x7b' :: (quote k ++ colon ++ (t ++ ['\x7d']))) =
      Except.ok (obj [(k, v)]) := by
  have hread : forall n, value (n + 3)
      ('\x7b' :: (quote k ++ colon ++ (t ++ ['\x7d']))) =
        some (obj [(k, v)], []) := by
    intro n
    show (member (n + 2) (quote k ++ colon ++ (t ++ ['\x7d']))).bind _ = _
    rw [member_quote (h n ['\x7d'])]
    rfl
  have hlen : ('\x7b' :: (quote k ++ colon ++ (t ++ ['\x7d']))).length + 1 =
      (k.flatMap quoteChar).length + t.length + 4 + 3 := by
    simp [quote, colon, text]
    omega
  unfold loads
  rw [hlen, hread]

theorem value_infinity (n : Nat) (rest : Text) :
    value (n + 1) (text "Infinity" ++ rest) =
      some (float (PyFloat.infinity false), rest) := by
  rfl

end Json

end Python
