import EsOptimizer.Proofs.Token.Cuts

/-!
# The texts of tokens

The text that a token is read from spells the token: read alone, it gives the same token. Within a
string literal what follows an escape matters, since a zero that a digit follows is no escape of its
own; what follows the whole token never does.
-/

namespace EsOptimizer
namespace Lexer

open Text (isLineEnd isIdentStart isIdentPart)

variable {α β : Type} {f : Cursor → Except SyntaxError (α × Cursor)} {c mid after : Cursor}
  {s s' t : List Char} {a : α} {b : β} {x : Char}

/-! ## Strings -/

theorem cuts_readHex {n value code : Nat} (h : readHex n value c = .ok (code, after)) :
    ∃ s, Cuts (readHex n value) c s code after := by
  induction n generalizing c value with
  | zero =>
    cases h
    exact ⟨[], .pure _ _⟩
  | succ n ih =>
    rw [readHex] at h
    split at h
    · rename_i d hd
      obtain ⟨x, hx, hdigit⟩ := Option.bind_eq_some_iff.mp hd
      obtain ⟨s, hcuts⟩ := ih h
      exact ⟨x :: s, .cons hx hcuts fun c' hc' => by simp [readHex, hc', hdigit]⟩
    · cases h

theorem cuts_charOf {code : Nat} {o : Option Char} (h : charOf code c = .ok (o, after)) :
    Cuts (charOf code) c [] o after := by
  unfold charOf at h
  split at h
  · rename_i hvalid
    cases h
    exact .stay fun c' _ => if_pos hvalid
  · cases h

/-- The end of a code point between braces, behind its digits. -/
def closeBraced (digits : List Char) (c : Cursor) : Except SyntaxError (Nat × Cursor) :=
  if digits.isEmpty || c.head? != some '\x7d' then c.fail .invalidEscape
  else
    let values := digits.filterMap (Number.digitValue? 16)
    .ok (values.foldl (fun acc d => acc * 16 + d) 0, c.next)

theorem cuts_closeBraced {digits : List Char} {code : Nat}
    (h : closeBraced digits c = .ok (code, after)) :
    Cuts (closeBraced digits) c ['\x7d'] code after := by
  unfold closeBraced at h
  split at h
  · cases h
  · rename_i hclosed
    cases h
    simp only [Bool.or_eq_true, bne_iff_ne, not_or, not_not] at hclosed
    obtain ⟨hempty, hbrace⟩ := hclosed
    exact .cons hbrace (.pure _ _) fun c' hc' => by simp [closeBraced, hc', hempty]

theorem cuts_readBraced {code : Nat} (h : readBraced c = .ok (code, after)) :
    ∃ s, Cuts readBraced c s code after :=
  ⟨_, (cuts_span rfl).bind (cuts_closeBraced h)⟩

/-- The rest of an escape, behind its first character. -/
def escapeBehind (ch : Char) (c : Cursor) : Except SyntaxError (Option Char × Cursor) :=
  if ch == 'n' then .ok (some '\n', c)
  else if ch == 't' then .ok (some '\t', c)
  else if ch == 'r' then .ok (some '\r', c)
  else if ch == 'b' then .ok (some '\x08', c)
  else if ch == 'f' then .ok (some '\x0c', c)
  else if ch == 'v' then .ok (some '\x0b', c)
  else if ch == '0' && !c.sees Number.isDigit then .ok (some '\x00', c)
  else if ch == 'x' then do
    let (code, after) ← readHex 2 0 c
    charOf code after
  else if ch == 'u' then do
    let (code, after) ← if c.head? == some '\x7b' then readBraced c.next else readHex 4 0 c
    charOf code after
  else if ch == '\r' then .ok (none, if c.head? == some '\n' then c.next else c)
  else if isLineEnd ch then .ok (none, c)
  else if '1' ≤ ch && ch ≤ '9' then c.fail (.unsupported .octalEscape)
  else .ok (some ch, c)

theorem readEscape_eq (c : Cursor) : readEscape c =
    match c.head? with
    | none => c.fail .unterminatedString
    | some ch => escapeBehind ch c.next := rfl

/-- A code point by four digits or between braces. -/
def readCodePoint (c : Cursor) : Except SyntaxError (Nat × Cursor) :=
  if c.head? == some '\x7b' then readBraced c.next else readHex 4 0 c

/-- What an escape of one character means: a line end nothing, and a digit no character, unless it is
a zero that `digit` does not go on. -/
def plainEscape (digit : Bool) (ch : Char) : Option (Option Char) :=
  if ch == 'n' then some (some '\n')
  else if ch == 't' then some (some '\t')
  else if ch == 'r' then some (some '\r')
  else if ch == 'b' then some (some '\x08')
  else if ch == 'f' then some (some '\x0c')
  else if ch == 'v' then some (some '\x0b')
  else if ch == '0' && !digit then some (some '\x00')
  else if isLineEnd ch then some none
  else if '1' ≤ ch && ch ≤ '9' then none
  else some (some ch)

def plainEnd (c : Cursor) : Option (Option Char) → Except SyntaxError (Option Char × Cursor)
  | some o => .ok (o, c)
  | none => c.fail (.unsupported .octalEscape)

theorem escapeBehind_eq {ch : Char} (hx : ch ≠ 'x') (hu : ch ≠ 'u') (hreturn : ch ≠ '\r')
    (c : Cursor) : escapeBehind ch c = plainEnd c (plainEscape (c.sees Number.isDigit) ch) := by
  simp only [plainEscape, apply_ite (plainEnd c)]
  simp only [escapeBehind, plainEnd, beq_iff_eq, hx, hu, hreturn, if_false]

/-- The reader moves over `s` and gives `a`, wherever the same character follows. -/
structure Repeats (f : Cursor → Except SyntaxError (α × Cursor)) (c : Cursor) (s : List Char) (a : α)
    (after : Cursor) : Prop where
  reads : c.Reads s after
  again : ∀ t, t.head? = after.rest.head? → Takes f s a t

theorem Cuts.repeats (h : Cuts f c s a after) : Repeats f c s a after :=
  ⟨h.reads, fun t ht => h.again t (.inr ht)⟩

/-- Such a reader may go by the next character. -/
theorem Repeats.congr {g : Cursor → Except SyntaxError (α × Cursor)} (h : Repeats g c s a after)
    (hf : ∀ c' : Cursor, c'.head? = c.head? → f c' = g c') : Repeats f c s a after := by
  refine ⟨h.reads, fun t ht c' hc' => ?_⟩
  have hhead : c'.head? = c.head? := by
    rw [Cursor.head?, Cursor.head?, hc', h.reads.rest_eq, List.head?_append, List.head?_append, ht]
  rw [hf c' hhead]
  exact h.again t ht c' hc'

theorem Repeats.bind {g : α → Cursor → Except SyntaxError (β × Cursor)} (h : Repeats f c s a mid)
    (h' : Repeats (g a) mid s' b after) :
    Repeats (fun c => f c >>= fun r => g r.1 r.2) c (s ++ s') b after := by
  refine ⟨h.reads.append h'.reads, fun t ht c' hc' => ?_⟩
  rw [List.append_assoc] at hc'
  have hahead : (s' ++ t).head? = mid.rest.head? := by
    rw [h'.reads.rest_eq, List.head?_append, List.head?_append, ht]
  obtain ⟨mid', hf, hmid⟩ := h.again (s' ++ t) hahead c' hc'
  obtain ⟨after', hg, hafter⟩ := h'.again t ht mid' hmid
  refine ⟨after', ?_, hafter⟩
  rw [hf]
  exact hg

theorem repeats_readCodePoint {code : Nat} (h : readCodePoint c = .ok (code, after)) :
    ∃ s, Repeats readCodePoint c s code after := by
  unfold readCodePoint at h
  split at h
  · rename_i hbrace
    obtain ⟨s, hcuts⟩ := cuts_readBraced h
    have hbraced : Cuts (fun c => readBraced c.next) c ('\x7b' :: s) code after :=
      .cons (beq_iff_eq.mp hbrace) hcuts fun _ _ => rfl
    exact ⟨_, hbraced.repeats.congr fun c' hc' => by rw [readCodePoint, hc', if_pos hbrace]⟩
  · rename_i hbrace
    obtain ⟨s, hcuts⟩ := cuts_readHex h
    exact ⟨s, hcuts.repeats.congr fun c' hc' => by rw [readCodePoint, hc', if_neg hbrace]⟩

theorem repeats_escapeBehind {ch : Char} {o : Option Char}
    (h : escapeBehind ch c = .ok (o, after)) : ∃ s, Repeats (escapeBehind ch) c s o after := by
  by_cases hx : ch = 'x'
  · subst hx
    have heq : ∀ c, escapeBehind 'x' c = readHex 2 0 c >>= fun r => charOf r.1 r.2 := fun c => by
      simp [escapeBehind]
    rw [heq] at h
    obtain ⟨⟨code, after'⟩, hcode, h⟩ := bind_eq_ok h
    obtain ⟨s, hcuts⟩ := cuts_readHex hcode
    exact ⟨_, (hcuts.repeats.bind (cuts_charOf h).repeats).congr fun c' _ => heq c'⟩
  by_cases hu : ch = 'u'
  · subst hu
    have heq : ∀ c, escapeBehind 'u' c = readCodePoint c >>= fun r => charOf r.1 r.2 := fun c => by
      simp only [escapeBehind, readCodePoint]
      cases c.head? == some '\x7b' <;> simp
    rw [heq] at h
    obtain ⟨⟨code, after'⟩, hcode, h⟩ := bind_eq_ok h
    obtain ⟨s, hrepeats⟩ := repeats_readCodePoint hcode
    exact ⟨_, (hrepeats.bind (cuts_charOf h).repeats).congr fun c' _ => heq c'⟩
  by_cases hreturn : ch = '\r'
  · subst hreturn
    have heq : ∀ c, escapeBehind '\r' c =
        .ok (none, if c.head? == some '\n' then c.next else c) := fun c => by
      simp [escapeBehind]
    rw [heq] at h
    cases h
    by_cases hfeed : c.head? = some '\n'
    · have hnext : Cuts (fun c => .ok (none, c.next)) c ['\n'] (none : Option Char) c.next :=
        .cons hfeed (.pure none _) fun _ _ => rfl
      simp only [hfeed, beq_self_eq_true, if_true]
      exact ⟨_, hnext.repeats.congr fun c' hc' => by simp [heq, hc', hfeed]⟩
    · simp only [beq_iff_eq, hfeed, if_false]
      exact ⟨_, (Cuts.pure none c).repeats.congr fun c' hc' => by simp [heq, hc', hfeed]⟩
  · have heq := escapeBehind_eq hx hu hreturn
    rw [heq] at h
    cases hplain : plainEscape (c.sees Number.isDigit) ch with
    | none =>
      rw [hplain] at h
      cases h
    | some o' =>
      rw [hplain] at h
      cases h
      exact ⟨_, (Cuts.pure o c).repeats.congr fun c' hc' => by
        rw [heq, Cursor.sees, hc', ← Cursor.sees, hplain, plainEnd]⟩

theorem repeats_readEscape {o : Option Char} (h : readEscape c = .ok (o, after)) :
    ∃ s, Repeats readEscape c s o after := by
  rw [readEscape_eq] at h
  split at h
  · cases h
  · rename_i ch hch
    obtain ⟨s, hrepeats⟩ := repeats_escapeBehind h
    obtain ⟨rest, hrest⟩ := List.head?_eq_some_iff.mp hch
    refine ⟨ch :: s, (Cursor.Reads.next hrest).append hrepeats.reads, fun t ht c' hc' => ?_⟩
    have hhead : c'.head? = some ch := by
      rw [Cursor.head?, hc']
      rfl
    rw [readEscape_eq, hhead]
    exact hrepeats.again t ht c'.next (rest_next hc')

/-- The rest of a literal, in which every character takes at most one step. It ends with the quote,
whatever follows. -/
theorem takes_readStringFrom {quote : Char} {start : Position} {steps : Nat} {cs : List Char}
    (h : readStringFrom quote start steps c = .ok (cs, after)) :
    ∃ s, s ≠ [] ∧ c.Reads s after ∧ ∀ start' steps' t, s.length ≤ steps' →
      Takes (readStringFrom quote start' steps') s cs t := by
  induction steps generalizing c cs with
  | zero => cases h
  | succ steps ih =>
    rw [readStringFrom] at h
    split at h
    · cases h
    rename_i ch hch
    obtain ⟨rest, hrest⟩ := List.head?_eq_some_iff.mp hch
    have hfirst := Cursor.Reads.next hrest
    split at h
    · rename_i hquote
      cases h
      refine ⟨[ch], List.cons_ne_nil _ _, hfirst, fun start' steps' t hsteps c' hc' => ?_⟩
      obtain ⟨steps', rfl⟩ := Nat.exists_eq_add_of_le' hsteps
      exact ⟨c'.next, by simp [readStringFrom, Cursor.head?, hc', hquote], rest_next hc'⟩
    rename_i hquote
    split at h
    · rename_i hslash
      obtain ⟨⟨o, mid⟩, hescape, h⟩ := bind_eq_ok h
      obtain ⟨⟨cs', after'⟩, hread, h⟩ := bind_eq_ok h
      cases h
      obtain ⟨s, hs⟩ := repeats_readEscape hescape
      obtain ⟨s', hne, hreads, htakes⟩ := ih hread
      refine ⟨ch :: (s ++ s'), List.cons_ne_nil _ _, hfirst.append (hs.reads.append hreads),
        fun start' steps' t hsteps c' hc' => ?_⟩
      obtain ⟨steps', rfl⟩ := Nat.exists_eq_add_of_le' (Nat.le_of_add_left_le hsteps)
      -- the literal does not end with the escape, so the same character follows it
      have hahead : (s' ++ t).head? = mid.rest.head? := by
        obtain ⟨y, s', rfl⟩ := List.exists_cons_of_ne_nil hne
        rw [hreads.rest_eq]
        rfl
      obtain ⟨mid', hescape', hmid⟩ := hs.again (s' ++ t) hahead c'.next
        ((rest_next hc').trans (List.append_assoc s s' t))
      obtain ⟨after', hread', hafter⟩ := htakes start' steps' t (by simp at hsteps; omega) mid' hmid
      refine ⟨after', ?_, hafter⟩
      simp [readStringFrom, Cursor.head?, hc', hquote, hslash, hescape', hread', bind, Except.bind]
    rename_i hslash
    split at h
    · cases h
    rename_i hend
    obtain ⟨⟨cs', after'⟩, hread, h⟩ := bind_eq_ok h
    cases h
    obtain ⟨s, hne, hreads, htakes⟩ := ih hread
    refine ⟨ch :: s, List.cons_ne_nil _ _, hfirst.append hreads,
      fun start' steps' t hsteps c' hc' => ?_⟩
    obtain ⟨steps', rfl⟩ := Nat.exists_eq_add_of_le' (Nat.le_of_add_left_le hsteps)
    obtain ⟨after', hread', hafter⟩ := htakes start' steps' t (by simpa using hsteps) c'.next
      (rest_next hc')
    refine ⟨after', ?_, hafter⟩
    simp [readStringFrom, Cursor.head?, hc', hquote, hslash, hend, hread', bind, Except.bind]

/-! ## Regular expressions -/

/-- The body of a regular expression ends in front of a slash, whatever follows. -/
theorem reads_of_readRegexBody {start : Position} {inClass : Bool} {cs body : List Char}
    {pos : Position} (h : readRegexBody start inClass cs pos = .ok (body, after)) :
    Cursor.Reads ⟨cs, pos⟩ body after ∧ after.head? = some '/' ∧ ∀ start' pos' t, ∃ after',
      readRegexBody start' inClass (body ++ '/' :: t) pos' = .ok (body, after') ∧
        after'.rest = '/' :: t := by
  fun_induction readRegexBody start inClass cs pos generalizing body after with
  | case3 inClass c rest pos hend hslash =>
    cases h
    have hc : c = '/' ∧ inClass = false := by simpa using hslash
    obtain ⟨rfl, rfl⟩ := hc
    refine ⟨.nil _, rfl, fun start' pos' t => ⟨⟨'/' :: t, pos'⟩, ?_, rfl⟩⟩
    rw [List.nil_append]
    unfold readRegexBody
    rw [if_neg hend, if_pos hslash]
  | case6 inClass c pos hend hslash hescape d rest hend' ih =>
    obtain ⟨⟨body', after'⟩, hread, h⟩ := bind_eq_ok h
    cases h
    obtain ⟨hreads, hhead, hagain⟩ := ih hread
    refine ⟨.cons (.cons hreads), hhead, fun start' pos' t => ?_⟩
    obtain ⟨end', hread', hend''⟩ := hagain start'
      ((pos'.past c (d :: (body' ++ '/' :: t))).past d (body' ++ '/' :: t)) t
    exact ⟨end', by simp [readRegexBody, hend, hslash, hescape, hend', hread', bind, Except.bind],
      hend''⟩
  | case7 inClass c rest pos hend hslash hescape =>
    rename_i inClass' ih
    obtain ⟨⟨body', after'⟩, hread, h⟩ := bind_eq_ok h
    cases h
    obtain ⟨hreads, hhead, hagain⟩ := ih hread
    refine ⟨.cons hreads, hhead, fun start' pos' t => ?_⟩
    obtain ⟨end', hread', hend''⟩ := hagain start' (pos'.past c (body' ++ '/' :: t)) t
    refine ⟨end', ?_, hend''⟩
    rw [List.cons_append]
    unfold readRegexBody
    rw [if_neg hend, if_neg hslash, if_neg hescape]
    show (readRegexBody start' inClass' _ _ >>= _) = _
    rw [hread']
    rfl
  | _ => cases h

/-- The flags of a regular expression, behind its slash. -/
def readFlags (body : List Char) (c : Cursor) : Except SyntaxError (Token × Cursor) :=
  let (flags, after) := c.span isIdentPart
  .ok (.regex (String.ofList body) (String.ofList flags), after)

theorem readRegex_eq (c : Cursor) : readRegex c = (do
    let (body, atSlash) ← readRegexBody c.pos false c.next.rest c.next.pos
    readFlags body atSlash.next) := rfl

theorem cuts_readFlags {body : List Char} {tok : Token}
    (h : readFlags body c = .ok (tok, after)) :
    ∃ s, Cuts (readFlags body) c s tok after ∧ tok ≠ .eof := by
  cases h
  exact ⟨_, cuts_of_span rfl fun c' after' hspan => by rw [readFlags, hspan], nofun⟩

theorem cuts_readRegex {tok : Token} (hx : c.head? = some x) (h : readRegex c = .ok (tok, after)) :
    ∃ s, Cuts readRegex c (x :: s) tok after ∧ tok ≠ .eof := by
  rw [readRegex_eq] at h
  obtain ⟨⟨body, atSlash⟩, hbody, h⟩ := bind_eq_ok h
  obtain ⟨hreads, hslash, hagain⟩ := reads_of_readRegexBody hbody
  obtain ⟨flags, hflags, heof⟩ := cuts_readFlags h
  obtain ⟨rest, hrest⟩ := List.head?_eq_some_iff.mp hx
  obtain ⟨behind, hbehind⟩ := List.head?_eq_some_iff.mp hslash
  refine ⟨body ++ '/' :: flags, ⟨(Cursor.Reads.next hrest).append
    (hreads.append ((Cursor.Reads.next hbehind).append hflags.reads)), fun t ht c' hc' => ?_⟩, heof⟩
  have hnext : c'.next.rest = body ++ '/' :: (flags ++ t) := by
    rw [rest_next hc']
    simp
  obtain ⟨atSlash', hbody', hatSlash⟩ := hagain c'.pos c'.next.pos (flags ++ t)
  obtain ⟨after', hflags', hafter⟩ := hflags.again t ht atSlash'.next (rest_next hatSlash)
  refine ⟨after', ?_, hafter⟩
  rw [readRegex_eq, hnext, hbody']
  exact hflags'

/-! ## Punctuation -/

/-- No longer mark is found in front of less text. -/
theorem reads_of_readPunctuation {first : Char} {tok : Token}
    (h : readPunctuation first c = .ok (tok, after)) :
    ∃ s, s ≠ [] ∧ c.Reads s after ∧ Takes (readPunctuation first) s tok [] ∧ tok ≠ .eof := by
  unfold readPunctuation at h
  split at h
  · rename_i text tok' hfind
    cases h
    have hmarks : ∀ p ∈ punctuation, p.1.toList ≠ [] ∧ p.2 ≠ .eof := by decide +kernel
    obtain ⟨hne, heof⟩ := hmarks _ (List.mem_of_find?_eq_some hfind)
    obtain ⟨hstarts, longer, shorter, heq, hlonger⟩ := List.find?_eq_some_iff_append.mp hfind
    obtain ⟨rest, hrest⟩ := List.isPrefixOf_iff_prefix.mp hstarts
    have hreads : c.Reads text.toList (c.skip text.length) := by
      rw [← String.length_toList]
      exact Cursor.reads_skip hrest.symm
    refine ⟨text.toList, hne, hreads, fun c' hc' => ?_, heof⟩
    have hnone : ∀ p ∈ longer, (!p.1.toList.isPrefixOf text.toList) = true := by
      intro p hp
      have hother := hlonger p hp
      rw [Bool.not_eq_true', Bool.eq_false_iff, Ne, List.isPrefixOf_iff_prefix] at hother ⊢
      exact fun h => hother (h.trans (List.isPrefixOf_iff_prefix.mp hstarts))
    have hfind' : punctuation.find? (fun p => p.1.toList.isPrefixOf c'.rest) = some (text, tok) := by
      rw [hc', List.append_nil]
      exact List.find?_eq_some_iff_append.mpr
        ⟨List.isPrefixOf_iff_prefix.mpr (List.prefix_refl _), longer, shorter, heq, hnone⟩
    refine ⟨c'.skip text.length, by rw [readPunctuation, hfind'], ?_⟩
    rw [← String.length_toList]
    exact rest_skip hc'
  · cases h

/-! ## Tokens -/

theorem cuts_of_map_readNumber {tok : Token}
    (h : (readNumber c).map (fun r => (Token.number r.1, r.2)) = .ok (tok, after)) :
    ∃ s n, s ≠ [] ∧ tok = .number n ∧ Cuts readNumber c s n after := by
  cases hread : readNumber c with
  | error e =>
    rw [hread] at h
    cases h
  | ok r =>
    rw [hread] at h
    cases h
    obtain ⟨s, hne, hcuts⟩ := cuts_readNumber hread
    exact ⟨s, r.1, hne, rfl, hcuts⟩

/-- The digit behind the point that a number starts with belongs to the number. -/
theorem sees_digit_again {n : Number} {c' : Cursor} (hcuts : Cuts readNumber c s n after)
    (hne : s ≠ []) (hpoint : c.head? = some '.') (hsees : c.next.sees Number.isDigit = true)
    (hc' : c'.rest = s ++ t) : c'.next.sees Number.isDigit = true := by
  obtain ⟨cs, rfl⟩ := hcuts.reads.exists_cons hne hpoint
  cases cs with
  | nil =>
    -- a point alone would have to be a number
    obtain ⟨end', hread, -⟩ := hcuts.again [] (.inl rfl) ⟨['.'], ⟨1, 1⟩⟩ rfl
    have hfails : readNumber ⟨['.'], ⟨1, 1⟩⟩ = .error ⟨⟨1, 2⟩, .invalidNumber⟩ := rfl
    rw [hfails] at hread
    cases hread
  | cons d cs =>
    rw [Cursor.sees, Cursor.head?, rest_next hcuts.reads.rest_eq] at hsees
    rw [Cursor.sees, Cursor.head?, rest_next hc']
    exact hsees

theorem cuts_readString {quote : Char} {tok : Token} (hx : c.head? = some x)
    (h : readString quote c = .ok (tok, after)) :
    ∃ s, s ≠ [] ∧ c.Reads s after ∧ Takes (readString quote) s tok [] ∧ tok ≠ .eof := by
  obtain ⟨rest, hrest⟩ := List.head?_eq_some_iff.mp hx
  obtain ⟨⟨cs, after'⟩, hread, h⟩ := bind_eq_ok h
  cases h
  obtain ⟨s, hne, hreads, hagain⟩ := takes_readStringFrom hread
  refine ⟨x :: s, List.cons_ne_nil _ _, (Cursor.Reads.next hrest).append hreads, fun c' hc' => ?_,
    nofun⟩
  have hsteps : s.length ≤ c'.rest.length + 1 := by
    rw [hc']
    simp
    omega
  obtain ⟨after', hread', hafter⟩ := hagain c'.pos (c'.rest.length + 1) [] hsteps c'.next
    (rest_next hc')
  refine ⟨after', ?_, hafter⟩
  rw [readString, hread']
  rfl

/-- A word, up to what no identifier goes on with. -/
def readWord (c : Cursor) : Except SyntaxError (Token × Cursor) :=
  let (run, after) := c.span isIdentPart
  .ok (.word (.ofText (String.ofList run)), after)

theorem cuts_readWord {tok : Token} (hx : c.head? = some x) (hstart : isIdentStart x = true)
    (h : readWord c = .ok (tok, after)) : ∃ s, s ≠ [] ∧ Cuts readWord c s tok after ∧ tok ≠ .eof := by
  unfold readWord at h
  rcases hspan : c.span isIdentPart with ⟨run, after'⟩
  rw [hspan] at h
  cases h
  have hcuts : Cuts readWord c run (.word (.ofText (String.ofList run))) after :=
    cuts_of_span hspan fun c' after' hspan' => by rw [readWord, hspan']
  refine ⟨run, ?_, hcuts, nofun⟩
  rintro rfl
  have hsame : after = c := hcuts.reads.eq_skip
  have hstops := (reads_of_spanFrom hspan).2.2 x (hsame ▸ hx)
  rw [isIdentPart_of_identStart hstart] at hstops
  cases hstops

/-- A token is read from a text that is read as the token alone. -/
theorem takes_readToken {slash : Bool} {tok : Token} (hx : c.head? = some x)
    (h : readToken slash x c = .ok (tok, after)) :
    ∃ s, s ≠ [] ∧ c.Reads s after ∧ Takes (readToken slash x) s tok [] ∧ tok ≠ .eof := by
  obtain ⟨rest, hrest⟩ := List.head?_eq_some_iff.mp hx
  unfold readToken at h ⊢
  split at h
  · rename_i hdot
    simp only [hdot, if_true]
    cases beq_iff_eq.mp hdot
    split at h
    · rename_i hsees
      obtain ⟨s, n, hne, rfl, hcuts⟩ := cuts_of_map_readNumber h
      refine ⟨s, hne, hcuts.reads, fun c' hc' => ?_, nofun⟩
      obtain ⟨after', hread, hafter⟩ := hcuts.again [] (.inl rfl) c' hc'
      have hsees' := sees_digit_again hcuts hne hx hsees hc'
      exact ⟨after', by simp [hsees', hread, Except.map], hafter⟩
    · cases h
      exact ⟨['.'], List.cons_ne_nil _ _, .next hrest, @takes_dot [] slash stops_nil, nofun⟩
  rename_i hdot
  simp only [if_neg hdot]
  split at h
  · rename_i hdigit
    simp only [if_pos hdigit]
    obtain ⟨s, n, hne, rfl, hcuts⟩ := cuts_of_map_readNumber h
    refine ⟨s, hne, hcuts.reads, fun c' hc' => ?_, nofun⟩
    obtain ⟨after', hread, hafter⟩ := hcuts.again [] (.inl rfl) c' hc'
    exact ⟨after', by simp [hread, Except.map], hafter⟩
  rename_i hdigit
  simp only [if_neg hdigit]
  split at h
  · rename_i hquote
    simp only [if_pos hquote]
    exact cuts_readString hx h
  rename_i hquote
  simp only [if_neg hquote]
  split at h
  · rename_i hslash
    simp only [if_pos hslash]
    obtain ⟨s, hcuts, heof⟩ := cuts_readRegex hx h
    exact ⟨x :: s, List.cons_ne_nil _ _, hcuts.reads, hcuts.again [] (.inl rfl), heof⟩
  rename_i hslash
  simp only [if_neg hslash]
  split at h
  · rename_i hstart
    simp only [if_pos hstart]
    obtain ⟨s, hne, hcuts, heof⟩ := cuts_readWord hx hstart h
    exact ⟨s, hne, hcuts.reads, hcuts.again [] (.inl rfl), heof⟩
  · rename_i hstart
    simp only [if_neg hstart]
    exact reads_of_readPunctuation h

/-- The text alone is read as the token, after some token. -/
def Spells (s : List Char) (t : Token) : Prop :=
  ∃ slash x cs, s = x :: cs ∧ Takes (readToken slash x) s t []

theorem spells_of_readToken {slash : Bool} {tok : Token} (hx : c.head? = some x)
    (h : readToken slash x c = .ok (tok, after)) :
    ∃ s, s ≠ [] ∧ c.Reads s after ∧ Spells s tok ∧ tok ≠ .eof := by
  obtain ⟨s, hne, hreads, htakes, heof⟩ := takes_readToken hx h
  obtain ⟨cs, hs⟩ := hreads.exists_cons hne hx
  exact ⟨s, hne, hreads, ⟨slash, x, cs, hs, htakes⟩, heof⟩

end Lexer
end EsOptimizer
