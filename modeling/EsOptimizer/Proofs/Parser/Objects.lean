import EsOptimizer.Proofs.Parser.Expressions

/-!
# Reading functions and object literals

A function is read if its body is. Properties are told from accessors by their first two tokens: the
words `get` and `set` are keys if a colon follows.
-/

namespace EsOptimizer

namespace Parser

open Piece Printer
open ParseContext (Ends)

variable {ctx : ParseContext} {b b' noIn : Bool} {ms rest out : List Mark} {e value : Expr}
  {id : NodeId} {fn : Func}

/-! ## Functions -/

/-- A block is read wherever it stands. -/
def ReadsBlock (ctx : ParseContext) (block : Block) : Prop :=
  ∀ b rest, ParsesWithin 1 (Parser.block · ctx) (marks b block.pieces ++ rest) rest
    (·.shape false = block.shape true)

/-- Parameters and body are read. -/
def ReadsFunc (fn : Func) : Prop :=
  ∀ b rest, ParsesWithin 1 (functionRest ·) (marks b fn.pieces ++ rest) rest
    (·.shape false = fn.shape true)

/-- Parameters, and the parenthesis behind them. -/
theorem parses_paramsToParen : (params : List Ident) →
    (∀ i ∈ params, Text.isName i.name = true) → (b b' : Bool) →
    ParsesWithin 1 (paramsToParen ·)
      (marks b (commas (params.map identPieces)) ++ ⟨.punct .rparen, b'⟩ :: rest) rest
      (fun is => is.map Ident.shape = params.map Ident.shape)
  | [], _, b, b' => by
    refine .step fun d hd => ?_
    rw [paramsToParen]
    refine .eat rfl ?_
    rw [if_pos rfl]
    exact .pure rfl
  | [i], hnames, b, b' => by
    refine .step fun d hd => ?_
    have hi := Token.ofText_name (hnames i List.mem_cons_self)
    simp only [List.map_cons, List.map_nil, commas, identPieces, marks, hi, List.cons_append,
      List.nil_append]
    rw [paramsToParen]
    refine .leave (by simp) ?_
    rw [if_neg Bool.false_ne_true]
    refine .ident rfl fun id => .leave (by simp) ?_
    rw [if_neg Bool.false_ne_true]
    exact .expect rfl (.pure rfl)
  | i :: i' :: params, hnames, b, b' => by
    refine .step fun d hd => ?_
    have hi := Token.ofText_name (hnames i List.mem_cons_self)
    have hrest := parses_paramsToParen (i' :: params)
      (fun i hi => hnames i (List.mem_cons_of_mem _ hi)) false b'
    simp only [List.map_cons, marks_commas] at hd ⊢
    rw [identPieces, marks, hi] at hd ⊢
    rw [paramsToParen]
    refine .leave (by simp) ?_
    rw [if_neg Bool.false_ne_true]
    refine .ident rfl fun id => .eat rfl ?_
    rw [if_pos rfl]
    refine (hrest d (by simp at hd ⊢; omega)).bind fun is his => .pure ?_
    exact congrArg (i.shape :: ·) his

/-- Parameters begin with a parenthesis. -/
theorem marks_func (b : Bool) (fn : Func) : ∃ ms, marks b fn.pieces = ⟨.punct .lparen, b⟩ :: ms := by
  obtain ⟨id, params, body⟩ := fn
  simp only [Func.pieces, marks_append, marks_parens, List.cons_append]
  exact ⟨_, rfl⟩

theorem readsFunc (hparams : ∀ i ∈ fn.params, Text.isName i.name = true)
    (hbody : ReadsBlock .function fn.body) : ReadsFunc fn := by
  obtain ⟨id, params, body⟩ := fn
  intro b rest
  refine .step fun d hd => ?_
  simp only [Func.pieces, marks_append, marks_parens, marks, List.append_assoc, List.cons_append,
    List.nil_append] at hd ⊢
  rw [functionRest]
  refine .expect rfl ?_
  refine (parses_paramsToParen params hparams _ _ d (by simp at hd ⊢; omega)).bind fun is his => ?_
  refine (hbody _ rest d (by simp at hd ⊢; omega)).bind fun body' hbody' => .newId fun id' => .pure ?_
  exact congrArg₂ (Func.mk 0) his hbody'

/-- Functions of one shape have as many parameters. -/
theorem Func.params_length {f g : Func} {braces braces' : Bool}
    (h : f.shape braces = g.shape braces') : f.params.length = g.params.length := by
  obtain ⟨_, params, _⟩ := f
  obtain ⟨_, params', _⟩ := g
  simp only [Func.shape, Func.mk.injEq] at h
  simpa using congrArg List.length h.2.1

theorem readable_function {name : Option Ident} (hname : ∀ i, name = some i → Text.isName i.name = true)
    (hfn : ReadsFunc fn) : Readable (.function id name fn) := by
  intro b noIn _
  have hrest (d : Nat) (name' : Option Ident) (hname' : name'.map Ident.shape = name.map Ident.shape)
      (b : Bool) (rest : List Mark) (hd : 16 * (marks b fn.pieces ++ rest).length + 1 ≤ d) :
      Parses (do
        let fn ← functionRest d
        return Expr.function (← newId) name' fn) (marks b fn.pieces ++ rest) rest
        (·.SpelledBy (.function id name fn)) :=
    (hfn b rest d hd).bind fun f hf => .newId fun id' => .pure
      (congrArg₂ (Expr.function 0) hname' hf)
  simp only [Expr.pieces, marks, Token.ofText_words, List.cons_append]
  refine .ofPrimary (fun _ => rfl) (by decide) rfl (show 17 ≤ 18 by decide)
    fun ctx rest _ => .step fun d hd => ?_
  rw [primaryExpr]
  refine .peek ?_
  obtain ⟨d, rfl⟩ : ∃ k, d = k + 1 := ⟨d - 1, by simp at hd; omega⟩
  show Parses (functionExpr (d + 1)) _ _ _
  rw [functionExpr]
  cases name with
  | none =>
    dsimp only [List.nil_append] at hd ⊢
    refine .advance (.peek ?_)
    obtain ⟨ms, hms⟩ := marks_func false fn
    have hparams := hrest d none rfl false rest (by simp at hd ⊢; omega)
    rw [hms] at hparams ⊢
    exact .bind (.pure rfl) fun name hname => hname ▸ hparams
  | some i =>
    simp only [marks, identPieces, Token.ofText_name (hname i rfl), List.cons_append,
      List.nil_append] at hd ⊢
    refine .advance (.peek ?_)
    refine .bind (P := (·.map Ident.shape = (some i).map Ident.shape))
      (.map (.ofIdent rfl) fun i' hi => ?_) fun name hname => hrest d name hname _ _ ?_
    · simp [Ident.shape, hi]
    · simp at hd ⊢
      omega

/-! ## Properties -/

/-- Whether a property name may begin with the token. -/
def opensKey : Token → Bool
  | .word _ | .string _ | .number _ | .punct .lbracket => true
  | _ => false

/-- A property name is read wherever it stands. -/
structure ReadsKey (key : PropertyKey) : Prop where
  reads : ∀ ctx b rest, ParsesWithin 1 (propertyKey · ctx) (marks b key.pieces ++ rest) rest
    (·.shape false = key.shape true)
  /-- It is one token, or it begins with a bracket. -/
  opens : ∀ b, ∃ t ms, marks b key.pieces = ⟨t, b⟩ :: ms ∧ opensKey t = true ∧
    (ms = [] ∨ t = .punct .lbracket)

/-- A name of one token. -/
theorem ReadsKey.ofToken {key : PropertyKey} {t : Token} (ht : opensKey t = true)
    (hmarks : ∀ b, marks b key.pieces = [⟨t, b⟩])
    (h : ∀ ctx b rest d, Parses (propertyKey (d + 1) ctx) (⟨t, b⟩ :: rest) rest
      (·.shape false = key.shape true)) : ReadsKey key where
  reads := fun ctx b rest => .step fun d _ => by
    rw [hmarks]
    exact h ctx b rest d
  opens := fun b => ⟨t, [], hmarks b, ht, .inl rfl⟩

theorem readsKey_ident {i : Ident} (h : Text.isWord i.name = true) : ReadsKey (.ident i) := by
  refine .ofToken (t := .word (.ofText i.name)) rfl (fun b => ?_) fun ctx b rest d => ?_
  · simp only [PropertyKey.pieces, identPieces, marks, Token.ofText_word h]
  · rw [propertyKey]
    refine .peek (.advance (.newId fun id => .pure ?_))
    simp only [PropertyKey.shape, Ident.shape, Word.text_ofText]

theorem readsKey_string {value : String} : ReadsKey (.string id value) := by
  refine .ofToken (t := .string value) rfl (fun b => ?_) fun ctx b rest d => ?_
  · simp only [PropertyKey.pieces, marks, Token.ofText_quoted]
  · rw [propertyKey]
    exact .peek (.advance (.newId fun id => .pure rfl))

theorem readsKey_number {value : Number} (h : value.isUnsigned = true) :
    ReadsKey (.number id value) := by
  refine .ofToken (t := .number value.abs) rfl (fun b => ?_) fun ctx b rest d => ?_
  · simp only [PropertyKey.pieces, marks, Token.ofText_number h]
  · rw [propertyKey]
    exact .peek (.advance (.newId fun id => .pure rfl))

theorem readsKey_computed (h : Readable e) : ReadsKey (.computed e) where
  reads := fun ctx b rest => .step fun d hd => by
    simp only [PropertyKey.pieces, marks_append, marks, Token.ofText_punctuation,
      List.append_assoc, List.cons_append, List.nil_append] at hd ⊢
    rw [propertyKey]
    refine .peek (.advance ?_)
    refine (h.assign .allowIn (.close (by simp)) d (by simp at hd ⊢; omega)).bind
      fun a ha => .expect rfl (.pure ?_)
    exact congrArg PropertyKey.computed ha
  opens := fun b => by
    simp only [PropertyKey.pieces, marks, Token.ofText_punctuation, List.cons_append]
    exact ⟨_, _, rfl, rfl, .inr rfl⟩

/-- A property is read in front of a comma and at the end of the literal. -/
structure ReadsProperty (p : Property) : Prop where
  reads : ∀ ctx b rest,
    (Mark.next rest).token = .punct .comma ∨ (Mark.next rest).token = .punct .rbrace →
    ParsesWithin 2 (property · ctx) (marks b p.pieces ++ rest) rest (·.shape false = p.shape true)
  opens : ∀ b, ∃ t ms, marks b p.pieces = ⟨t, b⟩ :: ms ∧ opensKey t = true

theorem readsProperty_value {key : PropertyKey} (hkey : ReadsKey key) (hvalue : Readable value) :
    ReadsProperty (.value id key value) where
  reads := fun ctx b rest hrest => .step fun d hd => by
    simp only [Property.pieces, marks_append, marks, Token.ofText_punctuation, List.append_assoc,
      List.cons_append, List.nil_append] at hd ⊢
    have hends : ctx.allowIn.Ends 1 (Mark.next rest).token := by
      rcases hrest with h | h <;> rw [h]
      · exact .ofComma (by decide)
      · exact .close (by simp)
    obtain ⟨t, ms, hms, -, hone⟩ := hkey.opens b
    -- Behind a word stands the colon, so that it is the key.
    have hsecond {w : Word} {more : List Mark}
        (hw : (Mark.next (marks b key.pieces ++ ⟨.punct .colon, endsLine b key.pieces⟩ :: more)).token =
          .word w) :
        Mark.second (marks b key.pieces ++ ⟨.punct .colon, endsLine b key.pieces⟩ :: more) =
          .punct .colon := by
      rcases hone with rfl | rfl
      · rw [hms]
        rfl
      · rw [hms] at hw
        cases hw
    rw [property]
    refine .peekSecond (.peek ?_)
    split
    case h_3 =>
      refine (hkey.reads ctx _ _ d hd).bind fun k hk => .sees ?_
      rw [if_neg (by simp)]
      refine .expect rfl ((hvalue.assign .allowIn hends d (by simp at hd ⊢; omega)).bind
        fun v hv => .newId fun id' => .pure ?_)
      exact congrArg₂ (Property.value 0) hk hv
    all_goals
      rename_i hword hkey
      rw [hsecond hword] at hkey
      cases hkey
  opens := fun b => by
    obtain ⟨t, ms, hms, ht, -⟩ := hkey.opens b
    simp only [Property.pieces, marks_append, hms, List.cons_append]
    exact ⟨_, _, rfl, ht⟩

/-- A getter or a setter. -/
def accessorOf (isGetter : Bool) (id : NodeId) (key : PropertyKey) (fn : Func) : Property :=
  if isGetter then .getter id key fn else .setter id key fn

/-- The word of an accessor, and what follows it. -/
theorem parses_accessor {key : PropertyKey} {isGetter : Bool} {m : Mark} (hkey : ReadsKey key)
    (hfn : ReadsFunc fn) (hparams : fn.params.length = if isGetter then 0 else 1) :
    ParsesWithin 1 (accessor · ctx isGetter)
      (m :: (marks b key.pieces ++ (marks b' fn.pieces ++ rest))) rest
      (·.shape false = (accessorOf isGetter id key fn).shape true) := by
  refine .step fun d hd => ?_
  rw [accessor]
  refine .advance ((hkey.reads ctx _ _ d (by simp at hd ⊢; omega)).bind fun k hk => ?_)
  refine .position fun pos => (hfn _ _ d (by simp at hd ⊢; omega)).bind fun f hf => ?_
  rw [← Func.params_length hf] at hparams
  cases isGetter with
  | true =>
    rw [if_pos rfl, if_pos (by simpa using hparams)]
    exact .newId fun id' => .pure (congrArg₂ (Property.getter 0) hk hf)
  | false =>
    rw [if_neg Bool.false_ne_true, if_pos (by simpa using hparams)]
    exact .newId fun id' => .pure (congrArg₂ (Property.setter 0) hk hf)

/-- One of the two words with a property name behind it makes an accessor. -/
theorem readsProperty_accessor {key : PropertyKey} (isGetter : Bool) (hkey : ReadsKey key)
    (hfn : ReadsFunc fn) (hparams : fn.params.length = if isGetter then 0 else 1) :
    ReadsProperty (accessorOf isGetter id key fn) := by
  have hmarks (b : Bool) : marks b (accessorOf isGetter id key fn).pieces =
      ⟨.word (.ident (if isGetter then "get" else "set")), b⟩ :: (marks false key.pieces ++
        marks (endsLine false key.pieces) fn.pieces) := by
    cases isGetter <;> simp [accessorOf, Property.pieces]
  refine ⟨fun ctx b rest _ => .step fun d hd => ?_, fun b => ⟨_, _, hmarks b, rfl⟩⟩
  obtain ⟨t, ms, hms, ht, -⟩ := hkey.opens false
  rw [hmarks, List.cons_append, List.append_assoc] at hd ⊢
  have hread : Parses (accessor d ctx isGetter) _ rest
      (·.shape false = (accessorOf isGetter id key fn).shape true) :=
    parses_accessor hkey hfn hparams d hd
  rw [property]
  refine .peekSecond (.peek ?_)
  rw [hms] at hread ⊢
  cases t with
  | word _ | string _ | number _ => cases isGetter <;> exact hread
  | punct p =>
    cases p with
    | lbracket => cases isGetter <;> exact hread
    | _ => cases ht
  | _ => cases ht

/-! ## Object literals -/

/-- Behind the first property stands a comma, and then the properties begin again. -/
theorem marks_propPieces (props : List Property) (b : Bool) :
    marks b (propPieces props false) =
      if props.isEmpty then [] else ⟨.punct .comma, b⟩ :: marks true (propPieces props true) := by
  cases props <;> simp [propPieces]

theorem parses_propertiesToBrace : (props : List Property) → (∀ p ∈ props, ReadsProperty p) →
    (b b' : Bool) → ParsesWithin 3 (propertiesToBrace · ctx)
      (marks b (propPieces props true) ++ ⟨.punct .rbrace, b'⟩ :: rest) rest
      (fun ps => propShapes false ps = propShapes true props)
  | [], _, b, b' => by
    refine .step fun d hd => ?_
    rw [propertiesToBrace]
    refine .eat rfl ?_
    rw [if_pos rfl]
    exact .pure rfl
  | p :: props, hps, b, b' => by
    refine .step fun d hd => ?_
    have hp := hps p List.mem_cons_self
    have hrest (b : Bool) := parses_propertiesToBrace props
      (fun p hp => hps p (List.mem_cons_of_mem _ hp)) b b'
    simp only [propPieces, if_true, List.nil_append, marks_append, marks_propPieces,
      List.append_assoc] at hd ⊢
    rw [propertiesToBrace]
    have hnext (more : List Mark) :
        (Mark.next (marks b p.pieces ++ more)).token ≠ .punct .rbrace := by
      obtain ⟨t, ms, hms, ht⟩ := hp.opens b
      rw [hms]
      rintro rfl
      cases ht
    refine .leave (hnext _) ?_
    rw [if_neg Bool.false_ne_true]
    cases props with
    | nil =>
      refine (hp.reads ctx b _ (.inr rfl) d (by simp at hd ⊢; omega)).bind fun p' hp' => ?_
      refine .leave (by simp) ?_
      rw [if_neg Bool.false_ne_true]
      exact .expect rfl (.pure (congrArg (· :: []) hp'))
    | cons q props =>
      rw [List.isEmpty_cons, if_neg Bool.false_ne_true] at hd ⊢
      refine (hp.reads ctx b _ (.inl rfl) d (by simp at hd ⊢; omega)).bind fun p' hp' => ?_
      refine .eat rfl ?_
      rw [if_pos rfl]
      refine (hrest _ d (by simp at hd ⊢; omega)).bind fun ps hps => .pure ?_
      exact congrArg₂ List.cons hp' hps

theorem readable_object {props : List Property} (hps : ∀ p ∈ props, ReadsProperty p) :
    Readable (.object id props) := by
  intro b noIn _
  -- The braces of an empty literal stand on one line.
  obtain ⟨b₁, b₂, hmarks⟩ : ∃ b₁ b₂, marks b ((Expr.object id props).pieces noIn) =
      ⟨.punct .lbrace, b⟩ :: (marks b₁ (propPieces props true) ++ [⟨.punct .rbrace, b₂⟩]) := by
    cases props with
    | nil => exact ⟨false, false, by simp [Expr.pieces, propPieces]⟩
    | cons p props => exact ⟨true, true, by simp [Expr.pieces]⟩
  rw [hmarks]
  refine .ofPrimary (fun _ => rfl) (by decide) rfl (show 17 ≤ 18 by decide)
    fun ctx rest _ => .step fun d hd => ?_
  simp only [List.cons_append, List.append_assoc, List.nil_append] at hd ⊢
  rw [primaryExpr]
  refine .peek (.advance ?_)
  refine (parses_propertiesToBrace props hps _ _ d (by simp at hd ⊢; omega)).bind
    fun ps hps => .newId fun id' => .pure ?_
  exact congrArg (Expr.object 0) hps

end Parser

end EsOptimizer
