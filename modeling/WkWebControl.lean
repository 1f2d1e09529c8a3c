import WkWebControl.Effects.System
import WkWebControl.Backend.TurnGating
import WkWebControl.Backend.AutoRelease
import WkWebControl.Backend.ClaimFlow
import WkWebControl.Backend.GameClaims
import WkWebControl.Backend.NewGame
import WkWebControl.Lines
import WkWebControl.Dll.ControlState
import WkWebControl.Link.Leftovers
import WkWebControl.Link.BetweenGames
import WkWebControl.Backend.Interference
import WkWebControl.Json.RoundTrip
import WkWebControl.Link.Wire
import WkWebControl.Link.Commands
import WkWebControl.Link.Adopted
import WkWebControl.Link.SendCommand
import WkWebControl.Link.Handles
import WkWebControl.Backend.Outages
import WkWebControl.Backend.HeldTeam
import WkWebControl.Frontend.Holding
import WkWebControl.Backend.ShownGames
import WkWebControl.Dll.ControlCalls
import WkWebControl.Link.BadLines
import WkWebControl.Link.WeaponValues
import WkWebControl.Link.FirePairs
import WkWebControl.Link.Snapshot
import WkWebControl.Frontend.SelectedWeapon
import WkWebControl.Link.Clients
import WkWebControl.Dll.OffsetCache
import WkWebControl.Dll.Launches
import WkWebControl.Dll.DllMain
import WkWebControl.Backend.Http
import WkWebControl.Backend.NewGameCalls
import WkWebControl.Backend.Consume
import WkWebControl.Backend.Subscribers
import WkWebControl.Backend.GamesInOrder
import WkWebControl.Backend.SentInOrder
import WkWebControl.Frontend.StuckKeys
import WkWebControl.Link.PushRate
import WkWebControl.Link.Forward
import WkWebControl.Link.FrameOrder
import WkWebControl.Frontend.GameState
import WkWebControl.Frontend.ShownInOrder
import WkWebControl.Frontend.WeaponPalette
