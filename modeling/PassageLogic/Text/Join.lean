/-! # Joining texts with a separator -/

namespace PassageLogic.Text

/-- The texts in order, with the separator between each two of them. -/
def joinWith (separator : String) : List String → String
  | [] => ""
  | [w] => w
  | w :: v :: ws => w ++ separator ++ joinWith separator (v :: ws)

@[simp] theorem joinWith_nil (separator : String) : joinWith separator [] = "" := rfl

@[simp] theorem joinWith_singleton (separator w : String) : joinWith separator [w] = w := rfl

theorem joinWith_cons_cons (separator w v : String) (ws : List String) :
    joinWith separator (w :: v :: ws) = w ++ separator ++ joinWith separator (v :: ws) := rfl

end PassageLogic.Text
