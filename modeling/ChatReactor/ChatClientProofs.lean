import ChatReactor.ChatClient
import ChatReactor.ChatSignUp

/-!
# What the client sends for a line

`split` cuts a line at every separator and drops the empty parts, except for the one behind the last separator (`split_eq`).
Its parts are the tokens of the line (`Tokenised`) as long as the number of separators is an `int`.
A command then takes its arguments from fixed positions: `dispatch` reads a part that is not there if there are fewer than
`needed`. The text of a private message begins behind the id, that of a group message with the id itself.
-/

namespace ChatReactor

open CheckedInt

/-! ## `split` -/

/-- The parts of a text: the non-empty segments in front of the last separator, and the one behind it. -/
def tokens (sep : Char) (src : Text) : List Text :=
  ((src.splitOn sep).dropLast.filter fun t => t.length ≠ 0) ++ [(src.splitOn sep).getLastD []]

section
variable {sep : Char}

theorem separators_eq (src : Text) {count : Int} (hcount : Fits count) :
    separators sep src count =
      if count + src.count sep ≤ 2147483647 then .ok (count + src.count sep) else .error .count := by
  have hmin := hcount.1
  induction src generalizing count with
  | nil => simp [separators, hcount.2]
  | cons c src ih =>
    rw [separators]
    by_cases hc : c = sep
    · subst hc
      rw [if_pos rfl, List.count_cons_self, Int.natCast_succ, Int.add_comm _ 1, ← Int.add_assoc]
      by_cases hfits : count + 1 ≤ 2147483647
      · rw [add_eq ⟨by omega, hfits⟩]
        exact ih ⟨by omega, hfits⟩ (by omega)
      · rw [add_eq_none (by omega), if_neg (by omega)]
    · rw [if_neg hc, List.count_cons_of_ne hc]
      exact ih hcount hmin

/-- The loop has seen `tmp` of the current segment. -/
theorem splitLoop_eq (src tmp : Text) (res : List Text) (htmp : src.count sep = 0 → tmp = []) :
    splitLoop sep src tmp res (src.count sep) =
      (res ++ (((src.splitOn sep).modifyHead (tmp ++ ·)).dropLast.filter fun t => t.length ≠ 0),
        ((src.splitOn sep).modifyHead (tmp ++ ·)).getLastD []) := by
  induction src generalizing tmp res with
  | nil =>
    obtain rfl := htmp rfl
    simp [splitLoop]
  | cons c src ih =>
    rw [splitLoop]
    by_cases hzero : (c :: src).count sep = 0
    · obtain rfl := htmp hzero
      rw [List.splitOn_eq_singleton (List.count_eq_zero.1 hzero), hzero]
      simp
    · rw [if_pos (by omega), List.splitOn_cons_eq_if_modifyHead]
      by_cases hc : c = sep
      · subst hc
        obtain ⟨first, rest, hsegs⟩ := List.exists_cons_of_ne_nil (List.splitOn_ne_nil c src)
        have hloop := ih [] (if tmp.length ≠ 0 then res ++ [tmp] else res) fun _ => rfl
        rw [if_neg (by simp), List.count_cons_self, Int.natCast_succ, Int.add_sub_cancel, hloop, hsegs]
        by_cases hempty : tmp = []
        · simp [hempty]
        · simp [hempty]
      · have hcount : (c :: src).count sep = src.count sep := List.count_cons_of_ne hc
        rw [if_pos hc, hcount, ih (tmp ++ [c]) res fun h => absurd (hcount.trans h) hzero, if_neg (by simpa using hc),
          List.modifyHead_modifyHead]
        simp [Function.comp_def]

/-- `split` counts the separators in an `int`. -/
theorem split_eq (src : Text) :
    split src sep = if src.count sep ≤ 2147483647 then .ok (tokens sep src) else .error .count := by
  have hhead : (src.splitOn sep).modifyHead (([] : Text) ++ ·) = src.splitOn sep := by
    cases src.splitOn sep <;> rfl
  rw [split, separators_eq src (by decide), Int.zero_add]
  by_cases h : src.count sep ≤ 2147483647
  · have hloop : splitLoop sep src [] [] (src.count sep) = _ := splitLoop_eq src [] [] fun _ => rfl
    rw [hhead] at hloop
    rw [if_pos (by omega), if_pos h]
    change Except.ok ((splitLoop sep src [] [] (src.count sep)).1 ++ [(splitLoop sep src [] [] (src.count sep)).2]) = _
    rw [hloop]
    rfl
  · rw [if_neg (by omega), if_neg h]
    rfl

/-- The segments of a text, each with a separator behind it but the last. -/
theorem exists_segments (sep : Char) (src : Text) : ∃ (segs : List Text) (last : Text), (∀ t ∈ segs, sep ∉ t) ∧ sep ∉ last ∧
    src = segs.flatMap (· ++ [sep]) ++ last ∧ src.splitOn sep = segs ++ [last] := by
  induction src with
  | nil => exact ⟨[], [], by simp, by simp, rfl, rfl⟩
  | cons c src ih =>
    obtain ⟨segs, last, hsegs, hlast, hsrc, hsplit⟩ := ih
    rw [List.splitOn_cons_eq_if_modifyHead, hsplit]
    by_cases hc : c = sep
    · subst hc
      refine ⟨[] :: segs, last, List.forall_mem_cons.2 ⟨List.not_mem_nil, hsegs⟩, hlast, ?_, by simp⟩
      rw [hsrc]
      simp
    · rw [if_neg (by simpa using hc), hsrc]
      cases segs with
      | nil => exact ⟨[], c :: last, hsegs, List.not_mem_cons_of_ne_of_not_mem (Ne.symm hc) hlast, rfl, rfl⟩
      | cons seg segs =>
        obtain ⟨hseg, hsegs⟩ := List.forall_mem_cons.1 hsegs
        have hfirst : sep ∉ c :: seg := List.not_mem_cons_of_ne_of_not_mem (Ne.symm hc) hseg
        exact ⟨(c :: seg) :: segs, last, List.forall_mem_cons.2 ⟨hfirst, hsegs⟩, hlast, rfl, rfl⟩

/-- What `split` should find: the non-empty segments in front of the last separator, and all that is behind it. -/
structure Tokenised (sep : Char) (src : Text) (res : List Text) : Prop where
  segments : ∃ (segs : List Text) (last : Text), (∀ t ∈ segs, sep ∉ t) ∧ sep ∉ last ∧
    src = segs.flatMap (· ++ [sep]) ++ last ∧ res = segs.filter (· ≠ []) ++ [last]
  free : ∀ t ∈ res, sep ∉ t
  flatten_eq : res.flatten = src.filter (· ≠ sep)

theorem filter_ne_of_not_mem {text : Text} (h : sep ∉ text) : text.filter (· ≠ sep) = text :=
  List.filter_eq_self.2 fun c hc => by simpa using fun heq : c = sep => h (heq ▸ hc)

theorem filter_segments {segs : List Text} (h : ∀ t ∈ segs, sep ∉ t) :
    (segs.flatMap (· ++ [sep])).filter (· ≠ sep) = (segs.filter (· ≠ [])).flatten := by
  induction segs with
  | nil => rfl
  | cons seg segs ih =>
    obtain ⟨hseg, hsegs⟩ := List.forall_mem_cons.1 h
    rw [List.flatMap_cons, List.filter_append, List.filter_append, filter_ne_of_not_mem hseg, ih hsegs]
    cases seg <;> simp

theorem tokenised_tokens (sep : Char) (src : Text) : Tokenised sep src (tokens sep src) := by
  obtain ⟨segs, last, hsegs, hlast, hsrc, hsplit⟩ := exists_segments sep src
  have htokens : tokens sep src = segs.filter (· ≠ []) ++ [last] := by
    simp [tokens, hsplit]
  refine ⟨⟨segs, last, hsegs, hlast, hsrc, htokens⟩, ?_, ?_⟩
  · intro t ht
    rw [htokens] at ht
    obtain ht | ht := List.mem_append.1 ht
    · exact hsegs t (List.mem_of_mem_filter ht)
    · exact List.mem_singleton.1 ht ▸ hlast
  · rw [htokens, List.flatten_append, List.flatten_singleton, hsrc, List.filter_append, filter_segments hsegs,
      filter_ne_of_not_mem hlast]

/-- **`split` tokenises**, exactly if an `int` can count the separators. -/
theorem split_tokenises_iff (src : Text) (sep : Char) :
    (∃ res, split src sep = .ok res ∧ Tokenised sep src res) ↔ src.count sep ≤ 2147483647 := by
  rw [split_eq]
  constructor
  · rintro ⟨res, hres, -⟩
    by_contra hmany
    rw [if_neg hmany] at hres
    cases hres
  · intro hcount
    exact ⟨tokens sep src, if_pos hcount, tokenised_tokens sep src⟩

/-- 2147483648 separators: `count++` overflows at the last one. -/
theorem count_of_separators_overflows : split (List.replicate (2 ^ 31) ' ') ' ' = .error .count := by
  rw [split_eq, List.count_replicate_self, if_neg (by decide)]

/-- Separators in front, twice, and at the end. -/
example : split "  to be  or ".toList ' ' = .ok ["to".toList, "be".toList, "or".toList, []] := by decide

/-- Words with one separator between them are found again. -/
theorem tokens_intercalate {words : List Text} (hne : words ≠ []) (hwords : ∀ w ∈ words, w ≠ [] ∧ sep ∉ w) :
    tokens sep ([sep].intercalate words) = words := by
  have hall : (words.dropLast.filter fun t => t.length ≠ 0) = words.dropLast := by
    refine List.filter_eq_self.2 fun w hw => ?_
    simpa using (hwords w (List.dropLast_subset words hw)).1
  rw [tokens, List.splitOn_intercalate sep (fun w hw => (hwords w hw).2) hne, hall, List.getLastD_eq_getLast?,
    List.getLast?_eq_some_getLast hne, Option.getD_some, List.dropLast_append_getLast hne]

end

/-! ## The words of a message -/

/-- The words of a text, between blanks. -/
def wordsOf (t : Text) : List Text := (t.splitOn ' ').filter fun w => w.length ≠ 0

theorem wordsOf_joined {words : List Text} (hwords : ∀ w ∈ words, w ≠ [] ∧ ' ' ∉ w) : wordsOf (joined words) = words := by
  induction words with
  | nil => rfl
  | cons w words ih =>
    obtain ⟨⟨hne, hblank⟩, hrest⟩ := List.forall_mem_cons.1 hwords
    have hcons : joined (w :: words) = w ++ ' ' :: joined words := by simp [joined]
    have ih := ih hrest
    rw [wordsOf] at ih ⊢
    rw [hcons, List.splitOn_append_cons_self, List.splitOn_eq_singleton hblank, List.filter_append, ih]
    simp [hne]

/-! ## The id of a line -/

theorem decimalText_word (v : Int) : decimalText v ≠ [] ∧ ' ' ∉ decimalText v := by
  have hpos := Nat.length_toDigits_pos (b := 10) (n := v.natAbs)
  constructor
  · intro hnil
    have hdigits := (List.append_eq_nil_iff.1 hnil).2
    rw [hdigits] at hpos
    exact Nat.lt_irrefl 0 hpos
  · intro hmem
    obtain hsign | hdigits := List.mem_append.1 hmem
    · split at hsign <;> simp at hsign
    · exact absurd (SignUps.isDigit_toDigits _ ' ' hdigits) (by decide)

/-- `atol` reads an id back. -/
theorem strtol_decimalText {v : Int} (h : -2 ^ 63 ≤ v ∧ v < 2 ^ 63) : strtol (decimalText v) = v := by
  have hnumber : number (decimalText v) = v := by
    rw [decimalText]
    split
    · have hminus : number (['-'] ++ Nat.toDigits 10 v.natAbs) = -(digits 0 (Nat.toDigits 10 v.natAbs) : Int) := rfl
      rw [hminus, SignUps.digits_toDigits]
      omega
    · rw [List.nil_append, SignUps.number_eq (SignUps.isDigit_toDigits _), SignUps.digits_toDigits]
      omega
  rw [strtol, hnumber]
  omega

/-! ## The parts that a command reads -/

namespace ChatClient
variable {client : ChatClient} {arrived : Option Int} {message : List Text}

/-- A part is read that is not there. -/
def OutOfRange (r : Except ClientStop ChatClient) : Prop := ∃ i, r = .error (.index i)

/-- The number of parts that a command reads. -/
def needed : Char → Nat
  | 's' | 'l' => 3
  | 'p' | 'c' | 'a' | 'g' => 2
  | _ => 1

theorem not_outOfRange_ok {client' : ChatClient} : ¬ OutOfRange (.ok client') := by
  rintro ⟨i, h⟩
  cases h

/-- A command with one argument. -/
theorem outOfRange_one_iff {f : Text → Except ClientStop ChatClient} (hf : ∀ t, ¬ OutOfRange (f t)) :
    OutOfRange (element message 1 >>= f) ↔ message.length < 2 := by
  rw [element]
  cases h : message[1]? with
  | none => exact iff_of_true ⟨1, rfl⟩ (Nat.lt_succ_of_le (List.getElem?_eq_none_iff.1 h))
  | some t => exact iff_of_false (hf t) (Nat.not_lt.2 (List.getElem?_eq_some_iff.1 h).1)

/-- A command with two arguments. -/
theorem outOfRange_two_iff {f : Text → Text → Except ClientStop ChatClient} (hf : ∀ t u, ¬ OutOfRange (f t u)) :
    OutOfRange (element message 1 >>= fun t => element message 2 >>= f t) ↔ message.length < 3 := by
  rw [element, element]
  cases h : message[1]? with
  | none => exact iff_of_true ⟨1, rfl⟩ (by have := List.getElem?_eq_none_iff.1 h; omega)
  | some t =>
    cases h' : message[2]? with
    | none => exact iff_of_true ⟨2, rfl⟩ (Nat.lt_succ_of_le (List.getElem?_eq_none_iff.1 h'))
    | some u => exact iff_of_false (hf t u) (Nat.not_lt.2 (List.getElem?_eq_some_iff.1 h').1)

theorem sign_outOfRange_iff : OutOfRange (client.sign arrived message) ↔ message.length < 3 := by
  refine outOfRange_two_iff fun name passwd => ?_
  rintro ⟨i, h⟩
  dsimp only at h
  split at h <;> cases h

/-- A command reads a part that is not there exactly if there are fewer than it needs. -/
theorem perform_outOfRange_iff (hne : message ≠ []) (c : Char) :
    OutOfRange (client.perform arrived message c) ↔ message.length < needed c := by
  have hpos : 0 < message.length := List.length_pos_of_ne_nil hne
  unfold perform
  split
  · exact sign_outOfRange_iff
  · exact outOfRange_two_iff fun _ _ => not_outOfRange_ok
  · exact outOfRange_one_iff fun _ => not_outOfRange_ok
  · exact outOfRange_one_iff fun _ => not_outOfRange_ok
  · exact outOfRange_one_iff fun _ => not_outOfRange_ok
  · exact outOfRange_one_iff fun _ => not_outOfRange_ok
  · exact iff_of_false not_outOfRange_ok (Nat.not_lt.2 hpos)
  · have hone : needed c = 1 := by
      unfold needed
      split <;> first | rfl | simp_all
    rw [hone]
    exact iff_of_false not_outOfRange_ok (Nat.not_lt.2 hpos)

/-- `message[0][0]` -/
def commandOf (message : List Text) : Char := (message.headD []).headD '\x00'

theorem dispatch_eq (hne : message ≠ []) :
    client.dispatch arrived message = client.perform arrived message (commandOf message) := by
  obtain ⟨first, rest, rfl⟩ := List.exists_cons_of_ne_nil hne
  rfl

theorem onLine_eq {line : Text} (hsplit : split line ' ' = .ok message) (hne : message ≠ []) :
    client.onLine arrived line = client.perform arrived message (commandOf message) := by
  have hbind : ∀ f : List Text → Except ClientStop ChatClient, (Except.ok message >>= f) = f message := fun _ => rfl
  rw [onLine, hsplit, hbind, if_pos (List.length_pos_of_ne_nil hne), dispatch_eq hne]

/-! ## Lines with a message -/

/-- `cmd id w1 … wn`, with single blanks, an id that is a `long` and at least one word. -/
structure ChatLine (cmd : Char) (id : Int) (words : List Text) (line : Text) : Prop where
  id_range : -2 ^ 63 ≤ id ∧ id < 2 ^ 63
  nonempty : words ≠ []
  word : ∀ w ∈ words, w ≠ [] ∧ ' ' ∉ w
  line_eq : line = [' '].intercalate ([cmd] :: decimalText id :: words)

variable {id : Int} {words : List Text} {line : Text}

theorem ChatLine.split_eq {cmd : Char} (h : ChatLine cmd id words line) (hcmd : cmd ≠ ' ')
    (hcount : line.count ' ' ≤ 2147483647) : split line ' ' = .ok ([cmd] :: decimalText id :: words) := by
  have hword : ∀ w ∈ [cmd] :: decimalText id :: words, w ≠ [] ∧ ' ' ∉ w :=
    List.forall_mem_cons.2 ⟨⟨List.cons_ne_nil _ _, by simpa using hcmd.symm⟩,
      List.forall_mem_cons.2 ⟨decimalText_word id, h.word⟩⟩
  rw [ChatReactor.split_eq, if_pos hcount, h.line_eq, tokens_intercalate (List.cons_ne_nil _ _) hword]

theorem onLine_private (h : ChatLine 'p' id words line) (hcount : line.count ' ' ≤ 2147483647) :
    client.onLine arrived line = .ok (client.write (.pmessage ⟨atoi client.uidLine, id, joined words⟩)) := by
  have hid := strtol_decimalText h.id_range
  rw [onLine_eq (h.split_eq (by decide) hcount) (List.cons_ne_nil _ _)]
  change Except.ok (client.write (.pmessage ⟨_, strtol (decimalText id), joined words⟩)) = _
  rw [hid]

/-- The text begins with the id. -/
theorem onLine_group (h : ChatLine 'g' id words line) (hcount : line.count ' ' ≤ 2147483647) :
    client.onLine arrived line = .ok (client.write (.gmessage ⟨id, joined (decimalText id :: words)⟩)) := by
  have hid := strtol_decimalText h.id_range
  rw [onLine_eq (h.split_eq (by decide) hcount) (List.cons_ne_nil _ _)]
  change Except.ok (client.write (.gmessage ⟨strtol (decimalText id), joined (decimalText id :: words)⟩)) = _
  rw [hid]

/-- A line is dealt with as it is meant: only parts that exist are read, and a message is sent with its id and its words. -/
structure Transmitted (client : ChatClient) (arrived : Option Int) (line : Text) : Prop where
  inRange : ∃ message, split line ' ' = .ok message ∧ ¬ OutOfRange (client.dispatch arrived message)
  privateChat : ∀ id words, ChatLine 'p' id words line → ∃ client' uid content, client.onLine arrived line = .ok client' ∧
    client'.sent = client.sent ++ [.pmessage ⟨uid, id, content⟩] ∧ wordsOf content = words
  groupChat : ∀ id words, ChatLine 'g' id words line → ∃ client' content, client.onLine arrived line = .ok client' ∧
    client'.sent = client.sent ++ [.gmessage ⟨id, content⟩] ∧ wordsOf content = words

/-- **A line is transmitted** exactly if it has the parts that its command reads, as many blanks as an `int` can count, and
is no group message. -/
theorem transmitted_iff (client : ChatClient) (arrived : Option Int) (line : Text) :
    Transmitted client arrived line ↔
      line.count ' ' ≤ 2147483647 ∧ needed (commandOf (tokens ' ' line)) ≤ (tokens ' ' line).length ∧
        ∀ id words, ¬ ChatLine 'g' id words line := by
  have hne : tokens ' ' line ≠ [] := List.append_ne_nil_of_right_ne_nil _ (List.cons_ne_nil _ _)
  have hrange : OutOfRange (client.dispatch arrived (tokens ' ' line)) ↔ _ :=
    dispatch_eq hne ▸ perform_outOfRange_iff hne (commandOf (tokens ' ' line))
  constructor
  · rintro ⟨⟨message, hsplit, hok⟩, -, hgroup⟩
    rw [ChatReactor.split_eq] at hsplit
    by_cases hcount : line.count ' ' ≤ 2147483647
    · rw [if_pos hcount] at hsplit
      cases hsplit
      refine ⟨hcount, Nat.not_lt.1 fun hlt => hok (hrange.2 hlt), fun id words hline => ?_⟩
      obtain ⟨client', content, honLine, hsent, hwords⟩ := hgroup id words hline
      rw [onLine_group hline hcount] at honLine
      cases honLine
      have hcontent : joined (decimalText id :: words) = content := by simpa [write] using hsent
      rw [← hcontent, wordsOf_joined (List.forall_mem_cons.2 ⟨decimalText_word id, hline.word⟩)] at hwords
      exact absurd (congrArg List.length hwords) (by simp)
    · rw [if_neg hcount] at hsplit
      cases hsplit
  · rintro ⟨hcount, hparts, hgroup⟩
    refine ⟨⟨_, by rw [ChatReactor.split_eq, if_pos hcount], fun hout => Nat.not_lt.2 hparts (hrange.1 hout)⟩, ?_, ?_⟩
    · intro id words hline
      exact ⟨_, _, _, onLine_private hline hcount, rfl, wordsOf_joined hline.word⟩
    · intro id words hline
      exact absurd hline (hgroup id words)

/-- `g 5 hi` is sent with the text `5 hi `, and `s` reads the name that is not there. -/
theorem group_text_begins_with_id :
    onLine ⟨[], [], .null, false, []⟩ none "g 5 hi".toList =
        .ok ⟨[.gmessage ⟨5, "5 hi ".toList⟩], [], .null, false, []⟩ ∧
      onLine ⟨[], [], .null, false, []⟩ none "s".toList = .error (.index 1) := by
  decide

end ChatClient
end ChatReactor
