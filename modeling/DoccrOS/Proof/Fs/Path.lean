import DoccrOS.Construction.Fs.Vfs

namespace DoccrOS.Fs

/-- The tokens that the loop shared by `vfs_find` and `vfs_mkdir` takes from a path. -/
def tokensFrom : (fuel : Nat) → List Char → List (List Char)
  | 0, _ => []
  | fuel + 1, p =>
    if p = [] then []
    else
      let (token, p) := takeToken (vfsNameMax - 1) p
      if token = [] then [] else token :: tokensFrom fuel (skipSlashes p)

/-- The tokens of a path. -/
def tokens (path : List Char) : List (List Char) := tokensFrom (path.length + 1) (skipSlashes path)

/-- A token that the loop can take: not empty, without slashes, and short enough for the name of a node. -/
structure TokenOk (token : List Char) : Prop where
  nonempty : token ≠ []
  noSlash : '/' ∉ token
  short : token.length < vfsNameMax

section
variable {p rest token : List Char} {room fuel more : Nat}

theorem skipSlashes_length (p : List Char) : (skipSlashes p).length ≤ p.length := by
  induction p with
  | nil => exact Nat.le_refl _
  | cons c p ih =>
      rw [skipSlashes]
      split
      · exact Nat.le_succ_of_le ih
      · exact Nat.le_refl _

/-- The loop over slashes stops at the end or at another character. -/
theorem skipSlashes_head (p : List Char) : (skipSlashes p).head? ≠ some '/' := by
  induction p with
  | nil => exact nofun
  | cons c p ih =>
      rw [skipSlashes]
      by_cases slash : c = '/'
      · rw [if_pos slash]
        exact ih
      · rw [if_neg slash, List.head?_cons]
        intro same
        exact slash (Option.some.inj same)

/-- A token and the rest are the two parts of the path. -/
theorem takeToken_append (room : Nat) (p : List Char) : (takeToken room p).1 ++ (takeToken room p).2 = p := by
  induction room generalizing p with
  | zero => rfl
  | succ room ih =>
      cases p with
      | nil => rfl
      | cons c p =>
          rw [takeToken]
          split
          · rfl
          · exact congrArg (c :: ·) (ih p)

theorem takeToken_short (room : Nat) (p : List Char) : (takeToken room p).1.length ≤ room := by
  induction room generalizing p with
  | zero => exact Nat.le_refl _
  | succ room ih =>
      cases p with
      | nil => exact Nat.zero_le _
      | cons c p =>
          rw [takeToken]
          split
          · exact Nat.zero_le _
          · exact Nat.succ_le_succ (ih p)

theorem takeToken_noSlash (room : Nat) (p : List Char) : '/' ∉ (takeToken room p).1 := by
  induction room generalizing p with
  | zero => exact List.not_mem_nil
  | succ room ih =>
      cases p with
      | nil => exact List.not_mem_nil
      | cons c p =>
          rw [takeToken]
          by_cases slash : c = '/'
          · rw [if_pos slash]
            exact List.not_mem_nil
          · rw [if_neg slash]
            intro member
            rcases List.mem_cons.mp member with same | late
            · exact slash same.symm
            · exact ih p late

/-- A path that does not begin with a slash gives a token. -/
theorem takeToken_ok (nonempty : p ≠ []) (noSlash : p.head? ≠ some '/') :
    TokenOk (takeToken (vfsNameMax - 1) p).1 ∧ (takeToken (vfsNameMax - 1) p).2.length < p.length := by
  have some : (takeToken (vfsNameMax - 1) p).1 ≠ [] := by
    cases p with
    | nil => exact absurd rfl nonempty
    | cons c p =>
        have other : c ≠ '/' := by
          intro slash
          exact noSlash (by rw [slash, List.head?_cons])
        rw [show vfsNameMax - 1 = 62 + 1 from rfl, takeToken, if_neg other]
        exact List.cons_ne_nil _ _
  refine ⟨⟨some, takeToken_noSlash _ p, Nat.lt_succ_of_le (takeToken_short _ p)⟩, ?_⟩
  have parts := congrArg List.length (takeToken_append (vfsNameMax - 1) p)
  rw [List.length_append] at parts
  have positive := List.length_pos_of_ne_nil some
  omega

/-- The step of the loop on the rest of a path. -/
theorem tokensFrom_succ (nonempty : p ≠ []) (noSlash : p.head? ≠ some '/') : tokensFrom (fuel + 1) p =
    (takeToken (vfsNameMax - 1) p).1 :: tokensFrom fuel (skipSlashes (takeToken (vfsNameMax - 1) p).2) := by
  have ok := (takeToken_ok nonempty noSlash).1
  rw [tokensFrom, if_neg nonempty]
  exact if_neg ok.nonempty

/-- The rest of a path behind a token is shorter. -/
theorem skipSlashes_takeToken (nonempty : p ≠ []) (noSlash : p.head? ≠ some '/') :
    (skipSlashes (takeToken (vfsNameMax - 1) p).2).length < p.length :=
  Nat.lt_of_le_of_lt (skipSlashes_length _) (takeToken_ok nonempty noSlash).2

/-- The root has two short names. -/
theorem tokens_root {path : List Char} (isRoot : path = [] ∨ path = ['/']) : tokens path = [] := by
  rcases isRoot with rfl | rfl <;> rfl

theorem skipSlashes_append (p rest : List Char) :
    skipSlashes (p ++ '/' :: rest) = if skipSlashes p = [] then skipSlashes rest else skipSlashes p ++ '/' :: rest := by
  induction p with
  | nil => rfl
  | cons c p ih =>
      by_cases slash : c = '/'
      · rw [List.cons_append, skipSlashes, skipSlashes, if_pos slash, if_pos slash]
        exact ih
      · rw [List.cons_append, skipSlashes, skipSlashes, if_neg slash, if_neg slash, if_neg (List.cons_ne_nil _ _)]
        rfl

/-- A token ends at the slash behind a path at the latest. -/
theorem takeToken_slash (room : Nat) (p rest : List Char) :
    takeToken room (p ++ '/' :: rest) = ((takeToken room p).1, (takeToken room p).2 ++ '/' :: rest) := by
  induction room generalizing p with
  | zero => rfl
  | succ room ih =>
      cases p with
      | nil => rfl
      | cons c p =>
          rw [List.cons_append, takeToken, takeToken]
          by_cases slash : c = '/'
          · rw [if_pos slash, if_pos slash]
            rfl
          · rw [if_neg slash, if_neg slash, ih]

/-- A name is taken as a whole. -/
theorem takeToken_name (noSlash : '/' ∉ token) (short : token.length ≤ room) : takeToken room token = (token, []) := by
  induction room generalizing token with
  | zero => rw [List.eq_nil_of_length_eq_zero (Nat.le_zero.mp short), takeToken]
  | succ room ih =>
      cases token with
      | nil => rfl
      | cons c token =>
          rw [List.mem_cons, not_or] at noSlash
          rw [takeToken, if_neg (Ne.symm noSlash.1), ih noSlash.2 (Nat.le_of_succ_le_succ short)]

theorem skipSlashes_name (noSlash : p.head? ≠ some '/') : skipSlashes p = p := by
  cases p with
  | nil => rfl
  | cons c p =>
      rw [skipSlashes, if_neg]
      intro slash
      exact noSlash (by rw [slash, List.head?_cons])

theorem TokenOk.head (ok : TokenOk token) : token.head? ≠ some '/' :=
  fun first => ok.noSlash (List.mem_of_head? first)

theorem TokenOk.tokensFrom (ok : TokenOk token) : tokensFrom (fuel + 1) token = [token] := by
  rw [tokensFrom_succ ok.nonempty ok.head, takeToken_name ok.noSlash (Nat.le_sub_one_of_lt ok.short)]
  cases fuel <;> rfl

/-- The name behind the last slash is the last token. -/
theorem tokensFrom_append (ok : TokenOk token) (enough : (skipSlashes p).length < fuel)
    (enough' : (skipSlashes (p ++ '/' :: token)).length < more) :
    tokensFrom more (skipSlashes (p ++ '/' :: token)) = tokensFrom fuel (skipSlashes p) ++ [token] := by
  induction fuel generalizing p more with
  | zero => exact absurd enough (Nat.not_lt_zero _)
  | succ fuel ih =>
      cases more with
      | zero => exact absurd enough' (Nat.not_lt_zero _)
      | succ more =>
          rw [skipSlashes_append] at enough' ⊢
          by_cases empty : skipSlashes p = []
          · rw [if_pos empty, skipSlashes_name ok.head, ok.tokensFrom, empty]
            rfl
          · rw [if_neg empty] at enough' ⊢
            have head := skipSlashes_head p
            have longer : skipSlashes p ++ '/' :: token ≠ [] := List.append_ne_nil_of_left_ne_nil empty _
            have head' : (skipSlashes p ++ '/' :: token).head? ≠ some '/' := by
              rwa [List.head?_append_of_ne_nil _ empty]
            have shorter := skipSlashes_takeToken empty head
            have shorter' := skipSlashes_takeToken longer head'
            rw [tokensFrom_succ longer head', tokensFrom_succ empty head]
            simp only [takeToken_slash] at shorter' ⊢
            exact congrArg _ (ih (by omega) (by omega))

theorem tokens_append (path : List Char) (ok : TokenOk token) : tokens (path ++ '/' :: token) = tokens path ++ [token] :=
  tokensFrom_append ok (Nat.lt_succ_of_le (skipSlashes_length path)) (Nat.lt_succ_of_le (skipSlashes_length _))

theorem tokens_name (ok : TokenOk token) : tokens token = [token] := by
  rw [tokens, skipSlashes_name ok.head, ok.tokensFrom]

end

end DoccrOS.Fs
