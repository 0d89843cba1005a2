import CallbackGateway.Message.Basic

/-!
# Replies

A reply answers one message: the sender of the message becomes the receiver of the reply. The
text fields of a reply may hold any text.
-/

namespace CallbackGateway

namespace Reply

/-- What every reply says about itself. -/
structure Header where
  toUser : String
  fromUser : String
  /-- In seconds. -/
  createTime : Int
  deriving DecidableEq, Repr

/-- A piece of music. -/
structure Music where
  title : String
  description : String
  url : String
  highQualityUrl : String
  thumbMediaId : String
  deriving DecidableEq, Repr

/-- An article of a news reply. -/
structure Article where
  title : String
  description : String
  pictureUrl : String
  url : String
  deriving DecidableEq, Repr

/-- What a reply carries. -/
inductive Body
  | text (content : String)
  | image (mediaId : String)
  | voice (mediaId : String)
  | video (mediaId title description : String)
  | music (music : Music)
  | news (articles : List Article)
  deriving DecidableEq, Repr

/-- The word that announces a body. -/
def Body.type : Body → String
  | .text _ => "text"
  | .image _ => "image"
  | .voice _ => "voice"
  | .video _ _ _ => "video"
  | .music _ => "music"
  | .news _ => "news"

/-- The header of a reply to a message at a time. -/
def Header.answering (message : Message.Header) (time : Int) : Header :=
  ⟨message.fromUser, message.toUser, time⟩

end Reply

/-- A reply. -/
structure Reply where
  header : Reply.Header
  body : Reply.Body
  deriving DecidableEq, Repr

/-- A reply to a message at a time. -/
def Reply.answering (message : Message.Header) (time : Int) (body : Reply.Body) : Reply :=
  ⟨.answering message time, body⟩

end CallbackGateway
