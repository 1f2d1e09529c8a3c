namespace WebControl.Frontend

/-- `isMyTurn` of `ControlPage`; `null` is `none`. -/
def isMyTurn (myTeam turnTeam : Option Int) : Bool :=
  myTeam != none && turnTeam != none && myTeam == turnTeam

theorem isMyTurn_some (myTeam : Option Int) (team : Int) :
    isMyTurn myTeam (some team) = decide (myTeam = some team) := by
  rw [Bool.eq_iff_iff]
  cases myTeam with
  | none => simp [isMyTurn]
  | some mine => simp [isMyTurn, bne_iff_ne]

end WebControl.Frontend
